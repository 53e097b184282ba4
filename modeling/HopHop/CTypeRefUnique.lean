import HopHop.CTypeRefExact

namespace HopHop.CBackend

variable {δ κ : Type} {names : Names δ} {s t : Tables} {r : TypeRef}

/-! ### The records of base trees -/

theorem leafTypeRef_base {l : Leaf δ} (base : l.isBase = true) (found : leafTypeRef names l = some r) :
    r = .scalar r.baseName := by
  cases l with
  | declared d =>
    obtain ⟨name, -, rfl⟩ := Option.map_eq_some_iff.mp found
    rfl
  | builtin b =>
    cases found
    cases b <;> first | rfl | cases base
  | constBuiltin k =>
    obtain ⟨name, -, rfl⟩ := Option.map_eq_some_iff.mp found
    cases k <;> first | rfl | cases base
  | UNTYPED_INT =>
    cases found
    rfl
  | UNTYPED_FLOAT =>
    cases found
    rfl

theorem leafTypeRef_plain {l : Leaf δ} (found : leafTypeRef names l = some r) (plain : r.isPlain = true) :
    l.isBase = true := by
  cases l with
  | declared d => rfl
  | builtin b =>
    cases found
    cases b <;> first | rfl | cases plain
  | constBuiltin k =>
    obtain ⟨name, -, rfl⟩ := Option.map_eq_some_iff.mp found
    cases k <;> first | rfl | cases plain
  | UNTYPED_INT => rfl
  | UNTYPED_FLOAT => rfl

theorem TypeRef.isPlain_iff {r : TypeRef} :
    r.isPlain = true ↔ r.containerKind = .SCALAR ∧ r.ptrDepth = 0 ∧ r.containerPtrDepth = 0 ∧ r.isOptional = false := by
  simp only [isPlain, Bool.and_eq_true, decide_eq_true_eq, Bool.not_eq_true']
  tauto

theorem TypeRef.pointTo_not_plain (isRef isReadOnlyRef : Bool) (r : TypeRef) :
    (r.pointTo isRef isReadOnlyRef).isPlain = false := by
  cases plain : (r.pointTo isRef isReadOnlyRef).isPlain with
  | false => rfl
  | true =>
    obtain ⟨kind, depth, -⟩ := TypeRef.isPlain_iff.mp plain
    rw [(TypeRef.pointTo_scalar kind).2] at depth
    cases depth

theorem typeValue_base {v : TypeValue δ} (base : v.isBase = true)
    (parsed : parseTypeRefFromConstEvalTypeId names v = some r) : r = .scalar r.baseName := by
  cases v with
  | BUILTIN k =>
    refine leafTypeRef_base ?_ parsed
    cases k <;> first | rfl | cases base
  | NAMED d => exact leafTypeRef_base rfl parsed
  | UNTYPED_INT => exact leafTypeRef_base rfl parsed
  | UNTYPED_FLOAT => exact leafTypeRef_base rfl parsed
  | _ => cases base

/-- A base tree parses to a base name and nothing else. -/
theorem parseTypeRef_base {tree : TypeTree δ} (base : tree.isBase = true)
    (parsed : parseTypeRef names tree s = (some r, t)) : r = .scalar r.baseName := by
  cases tree with
  | TYPE_NAME l =>
    rw [parseTypeRef, Prod.mk.injEq] at parsed
    exact leafTypeRef_base base parsed.1
  | TYPE_VALUE v =>
    rw [parseTypeRef, Prod.mk.injEq] at parsed
    exact typeValue_base base parsed.1
  | TYPE_FN children =>
    rw [parseTypeRef] at parsed
    obtain ⟨parts, s', -, last⟩ := Parsed.andThen_eq_some.mp parsed
    cases last
    rfl
  | TYPE_TUPLE items =>
    rw [parseTypeRef] at parsed
    obtain ⟨fields, s', -, last⟩ := Parsed.andThen_eq_some.mp parsed
    by_cases few : fields.length < 2
    · rw [if_pos few] at last
      cases last
    · rw [if_neg few] at last
      cases last
      rfl
  | TYPE_ANON isUnion fields =>
    rw [parseTypeRef] at parsed
    obtain ⟨parsedFields, s', -, last⟩ := Parsed.andThen_eq_some.mp parsed
    cases last
    rfl
  | _ => cases base

theorem typeValue_plain {v : TypeValue δ} (parsed : parseTypeRefFromConstEvalTypeId names v = some r)
    (plain : r.isPlain = true) : v.isBase = true := by
  cases v with
  | BUILTIN k =>
    have base := leafTypeRef_plain parsed plain
    cases k <;> first | rfl | cases base
  | NAMED d => rfl
  | UNTYPED_INT => rfl
  | UNTYPED_FLOAT => rfl
  | PTR base =>
    obtain ⟨q, -, rfl⟩ := Option.map_eq_some_iff.mp parsed
    rw [TypeRef.pointTo_not_plain] at plain
    cases plain
  | REF isMutable base =>
    obtain ⟨q, -, rfl⟩ := Option.map_eq_some_iff.mp parsed
    rw [TypeRef.pointTo_not_plain] at plain
    cases plain
  | ARRAY arrayLen base =>
    obtain ⟨q, -, made⟩ := Option.bind_eq_some_iff.mp parsed
    obtain ⟨-, rfl⟩ := TypeRef.arrayOf_eq_some.mp made
    cases (TypeRef.isPlain_iff.mp plain).1
  | SLICE isMutable base =>
    obtain ⟨q, -, made⟩ := Option.bind_eq_some_iff.mp parsed
    obtain ⟨-, rfl⟩ := TypeRef.sliceOf_eq_some.mp made
    have kind := (TypeRef.isPlain_iff.mp plain).1
    cases isMutable <;> cases kind
  | OPTIONAL base =>
    obtain ⟨q, -, rfl⟩ := Option.map_eq_some_iff.mp parsed
    cases (TypeRef.isPlain_iff.mp plain).2.2.2
  | INVALID => cases parsed

/-- Only base trees parse to a base name and nothing else. -/
theorem parseTypeRef_plain {tree : TypeTree δ} (parsed : parseTypeRef names tree s = (some r, t))
    (plain : r.isPlain = true) : tree.isBase = true := by
  cases tree with
  | TYPE_NAME l =>
    rw [parseTypeRef, Prod.mk.injEq] at parsed
    exact leafTypeRef_plain parsed.1 plain
  | TYPE_VALUE v =>
    rw [parseTypeRef, Prod.mk.injEq] at parsed
    exact typeValue_plain parsed.1 plain
  | TYPE_FN children => rfl
  | TYPE_TUPLE items => rfl
  | TYPE_ANON isUnion fields => rfl
  | TYPE_PTR child =>
    rw [parseTypeRef] at parsed
    obtain ⟨q, s', -, last⟩ := Parsed.andThen_eq_some.mp parsed
    cases last
    rw [TypeRef.pointTo_not_plain] at plain
    cases plain
  | TYPE_REF child =>
    rw [parseTypeRef] at parsed
    obtain ⟨q, s', -, last⟩ := Parsed.andThen_eq_some.mp parsed
    cases last
    rw [TypeRef.pointTo_not_plain] at plain
    cases plain
  | TYPE_MUTREF child =>
    rw [parseTypeRef] at parsed
    obtain ⟨q, s', -, last⟩ := Parsed.andThen_eq_some.mp parsed
    cases last
    rw [TypeRef.pointTo_not_plain] at plain
    cases plain
  | TYPE_ARRAY len child =>
    rw [parseTypeRef] at parsed
    obtain ⟨q, s', -, last⟩ := Parsed.andThen_eq_some.mp parsed
    obtain ⟨n, -, made⟩ := Option.bind_eq_some_iff.mp (Prod.mk.inj last).1
    obtain ⟨-, rfl⟩ := TypeRef.arrayOf_eq_some.mp made
    cases (TypeRef.isPlain_iff.mp plain).1
  | TYPE_VARRAY lenName child =>
    rw [parseTypeRef] at parsed
    obtain ⟨q, s', -, last⟩ := Parsed.andThen_eq_some.mp parsed
    obtain ⟨-, rfl⟩ := TypeRef.varrayOf_eq_some.mp (Prod.mk.inj last).1
    cases (TypeRef.isPlain_iff.mp plain).2.1
  | TYPE_SLICE child =>
    rw [parseTypeRef] at parsed
    obtain ⟨q, s', -, last⟩ := Parsed.andThen_eq_some.mp parsed
    obtain ⟨-, rfl⟩ := TypeRef.sliceOf_eq_some.mp (Prod.mk.inj last).1
    cases (TypeRef.isPlain_iff.mp plain).1
  | TYPE_MUTSLICE child =>
    rw [parseTypeRef] at parsed
    obtain ⟨q, s', -, last⟩ := Parsed.andThen_eq_some.mp parsed
    obtain ⟨-, rfl⟩ := TypeRef.sliceOf_eq_some.mp (Prod.mk.inj last).1
    cases (TypeRef.isPlain_iff.mp plain).1
  | TYPE_OPTIONAL child =>
    rw [parseTypeRef] at parsed
    obtain ⟨q, s', -, last⟩ := Parsed.andThen_eq_some.mp parsed
    cases last
    cases (TypeRef.isPlain_iff.mp plain).2.2.2

/-- The array of a base tree parses to an array of a base name. -/
theorem parseTypeRef_baseArray {tree : TypeTree δ} (base : tree.isBaseArray = true)
    (parsed : parseTypeRef names tree s = (some r, t)) : (TypeRef.scalar r.baseName).arrayOf r.arrayLen = some r := by
  have made : ∀ (q : TypeRef) (n : Nat), q = .scalar q.baseName → q.arrayOf n = some r →
      (TypeRef.scalar r.baseName).arrayOf r.arrayLen = some r := by
    intro q n plain array
    obtain ⟨-, rfl⟩ := TypeRef.arrayOf_eq_some.mp array
    rw [plain]
    rfl
  cases tree with
  | TYPE_ARRAY len child =>
    rw [parseTypeRef] at parsed
    obtain ⟨q, s', first, last⟩ := Parsed.andThen_eq_some.mp parsed
    obtain ⟨n, -, array⟩ := Option.bind_eq_some_iff.mp (Prod.mk.inj last).1
    exact made q n (parseTypeRef_base base first) array
  | TYPE_VALUE v =>
    cases v with
    | ARRAY arrayLen elem =>
      rw [parseTypeRef, Prod.mk.injEq] at parsed
      obtain ⟨q, first, array⟩ := Option.bind_eq_some_iff.mp parsed.1
      exact made q _ (typeValue_base base first) array
    | _ => cases base
  | _ => cases base

/-! ### Type values as trees -/

theorem TypeValue.tree_denote (meaning : Leaf δ → Ty κ) (v : TypeValue δ) :
    v.tree.denote meaning = v.denote meaning := by
  induction v with
  | PTR base ih => rw [tree, TypeTree.denote, ih, denote]
  | REF isMutable base ih =>
    cases isMutable
    · rw [tree, if_neg Bool.false_ne_true, TypeTree.denote, ih, denote, if_neg Bool.false_ne_true]
    · rw [tree, if_pos rfl, TypeTree.denote, ih, denote, if_pos rfl]
  | ARRAY arrayLen base ih => rw [tree, TypeTree.denote, ih, denote, Option.getD_some, Int.toNat_natCast]
  | SLICE isMutable base ih =>
    cases isMutable
    · rw [tree, if_neg Bool.false_ne_true, TypeTree.denote, ih, denote, if_neg Bool.false_ne_true]
    · rw [tree, if_pos rfl, TypeTree.denote, ih, denote, if_pos rfl]
  | OPTIONAL base ih => rw [tree, TypeTree.denote, ih, denote]
  | _ => rw [tree, TypeTree.denote, denote]

def TypeValue.hasOptional : TypeValue δ → Bool
  | .OPTIONAL _ => true
  | .PTR base | .REF _ base | .ARRAY _ base | .SLICE _ base => base.hasOptional
  | _ => false

theorem arrayLenValue_word (n : UInt32) : arrayLenValue (some (n.toNat : Int)) = some n.toNat := by
  have bound := n.toNat_lt
  rw [arrayLenValue, Option.bind_some, if_pos ⟨by omega, by omega⟩, Int.toNat_natCast]

/-- Without optionals a type value and its tree are parsed alike. -/
theorem TypeValue.tree_parse (names : Names δ) {v : TypeValue δ} (none : v.hasOptional = false) (s : Tables) :
    parseTypeRef names v.tree s = (parseTypeRefFromConstEvalTypeId names v, s) := by
  induction v with
  | PTR base ih =>
    rw [tree, parseTypeRef, ih none, parseTypeRefFromConstEvalTypeId]
    cases parseTypeRefFromConstEvalTypeId names base <;> rfl
  | REF isMutable base ih =>
    cases isMutable
    · rw [tree, if_neg Bool.false_ne_true, parseTypeRef, ih none, parseTypeRefFromConstEvalTypeId]
      cases parseTypeRefFromConstEvalTypeId names base <;> rfl
    · rw [tree, if_pos rfl, parseTypeRef, ih none, parseTypeRefFromConstEvalTypeId]
      cases parseTypeRefFromConstEvalTypeId names base <;> rfl
  | ARRAY arrayLen base ih =>
    rw [tree, parseTypeRef, ih none, parseTypeRefFromConstEvalTypeId, arrayLenValue_word]
    cases parseTypeRefFromConstEvalTypeId names base <;> rfl
  | SLICE isMutable base ih =>
    cases isMutable
    · rw [tree, if_neg Bool.false_ne_true, parseTypeRef, ih none, parseTypeRefFromConstEvalTypeId]
      cases parseTypeRefFromConstEvalTypeId names base <;> rfl
    · rw [tree, if_pos rfl, parseTypeRef, ih none, parseTypeRefFromConstEvalTypeId]
      cases parseTypeRefFromConstEvalTypeId names base <;> rfl
  | OPTIONAL base ih => cases none
  | _ => rw [tree, parseTypeRef]; rfl

theorem Representable.no_optional {scope : Scope δ κ} {inField : Bool} {v : TypeValue δ}
    (one : Representable scope inField v.tree) : v.hasOptional = false := by
  induction v with
  | PTR base ih => cases one
  | REF isMutable base ih =>
    cases isMutable with
    | true => cases one
    | false =>
      rw [TypeValue.tree, if_neg Bool.false_ne_true] at one
      cases one with
      | ref base one => exact ih one
  | ARRAY arrayLen base ih =>
    cases one with
    | array base one => exact ih one
  | SLICE isMutable base ih =>
    cases isMutable with
    | true =>
      rw [TypeValue.tree, if_pos rfl] at one
      cases one with
      | mutslice base one => exact ih one
    | false =>
      rw [TypeValue.tree, if_neg Bool.false_ne_true] at one
      cases one with
      | slice base one => exact ih one
  | OPTIONAL base ih => cases one
  | _ => rfl

/-! ### Aliases that the tables know -/

/-- The aliases of `q` come from earlier tables. -/
def Known (names : Names δ) (t q : Tables) : Prop :=
  ∀ info ∈ q.typeAliases, ∃ before, Reached names before ∧ Entered names before t info

theorem Reached.known (reached : Reached names s) : Known names s s := fun _ member => reached.entered member

theorem Known.mono {q u : Tables} (known : Known names t q) (grows : t.Grows u) : Known names u q := by
  intro info member
  obtain ⟨before, reached, d, target, c, after, isTarget, isName, same, parsed, earlier⟩ := known info member
  exact ⟨before, reached, d, target, c, after, isTarget, isName, same, parsed, earlier.trans grows⟩

theorem resolveAlias_generated {q : Tables} (known : Known names t q) {name : CIdent}
    (generated : isGeneratedTypeName name = true) (n : Nat) : resolveAlias q n name = name := by
  cases n with
  | zero => rfl
  | succ n =>
    rw [resolveAlias]
    cases found : findTypeAliasInfoByAliasName q name with
    | none => rfl
    | some info =>
      obtain ⟨member, isName⟩ := findTypeAliasInfo_some found
      obtain ⟨before, reached, d, target, c, after, isTarget, isCName, same, -⟩ := known info member
      rw [← isName, same, c.not_generated] at generated
      cases generated

/-! ### Representable trees -/

/-- The type reference of a tree, in a field also after some rounds of alias resolution, stands for no other type in
any later tables. -/
def Determines (scope : Scope δ κ) (inField : Bool) (tree : TypeTree δ) : Prop :=
  ∀ (s s' t q : Tables) (r : TypeRef) (n : Nat), s.Named scope.packageName → t.Named scope.packageName →
    Known scope.toNames t s → Known scope.toNames t q → parseTypeRef scope.toNames tree s = (some r, s') →
    s'.Grows t → (inField = false → n = 0) →
    Unique scope t (r.setBase (resolveAlias q n r.baseName)) (tree.denote scope.meaning)

variable {scope : Scope δ κ}

theorem Known.of_extends {q u : Tables} (known : Known names t q) (extends_ : q.Extends u) : Known names t u := by
  intro info member
  exact known info (extends_.aliases ▸ member)

theorem Determines.items {index : Nat} {items : TypeItems δ} (each : ∀ tree ∈ items.trees, Determines scope true tree)
    {s s' : Tables} (namedS : s.Named scope.packageName) (namedT : t.Named scope.packageName)
    (known : Known scope.toNames t s) {fields : List (CIdent × TypeRef)}
    (parsed : parseTypeItems scope.toNames items index s = (some fields, s')) (grows : s'.Grows t) {tys : List (Ty κ)}
    (stand : List.Forall₂ (fun (f : CIdent × TypeRef) ty => Stands scope t f.2 ty) fields tys) :
    tys = items.denote scope.meaning := by
  induction fields generalizing index items s tys with
  | nil =>
    cases stand
    cases items with
    | nil => rfl
    | cons tree rest =>
      rw [parseTypeItems] at parsed
      by_cases full : 256 ≤ index
      · rw [if_pos full] at parsed
        cases parsed
      · rw [if_neg full] at parsed
        obtain ⟨r, s₁, -, last⟩ := Parsed.andThen_eq_some.mp parsed
        obtain ⟨others, s₂, -, all⟩ := Parsed.andThen_eq_some.mp last
        cases all
  | cons field fields ih =>
    cases items with
    | nil =>
      rw [parseTypeItems] at parsed
      cases parsed
    | cons tree rest =>
      rw [parseTypeItems] at parsed
      by_cases full : 256 ≤ index
      · rw [if_pos full] at parsed
        cases parsed
      · rw [if_neg full] at parsed
        obtain ⟨r, s₁, first, last⟩ := Parsed.andThen_eq_some.mp parsed
        obtain ⟨others, s₂, later, all⟩ := Parsed.andThen_eq_some.mp last
        have named := (parseTypeRef_steady scope.toNames tree).named s namedS
        have more := (parseTypeRef_steady scope.toNames tree).extends_ s namedS
        rw [first] at named more
        have moreRest := (parseTypeItems_steady scope.toNames rest (index + 1)).extends_ s₁ named
        rw [later] at moreRest
        cases all
        cases stand with
        | cons one others =>
          have head := each tree List.mem_cons_self s s₁ t s₁ r (s₁.typeAliases.length + 1) namedS namedT known
            (known.of_extends more) first (moreRest.grows.trans grows) (by intro absurd_; cases absurd_) _ one
          have tail := ih (fun u member => each u (List.mem_cons_of_mem tree member)) named (known.of_extends more)
            later others
          rw [TypeItems.denote, head, tail]

theorem Determines.fields {index : Nat} {fields : TypeFields δ}
    (each : ∀ tree ∈ fields.trees, Determines scope true tree) {s s' : Tables} (namedS : s.Named scope.packageName)
    (namedT : t.Named scope.packageName) (known : Known scope.toNames t s) {parsedFields : List (CIdent × TypeRef)}
    (parsed : parseTypeFields scope.toNames fields index s = (some parsedFields, s')) (grows : s'.Grows t)
    {tys : List (List UInt8 × Ty κ)}
    (stand : List.Forall₂ (fun (f : CIdent × TypeRef) (g : List UInt8 × Ty κ) => f.1.text = g.1 ∧ Stands scope t f.2 g.2)
      parsedFields tys) : tys = fields.denote scope.meaning := by
  induction parsedFields generalizing index fields s tys with
  | nil =>
    cases stand
    cases fields with
    | nil => rfl
    | cons name tree rest =>
      rw [parseTypeFields] at parsed
      by_cases full : 256 ≤ index
      · rw [if_pos full] at parsed
        cases parsed
      · rw [if_neg full] at parsed
        obtain ⟨r, s₁, -, last⟩ := Parsed.andThen_eq_some.mp parsed
        obtain ⟨others, s₂, -, all⟩ := Parsed.andThen_eq_some.mp last
        cases all
  | cons field parsedFields ih =>
    cases fields with
    | nil =>
      rw [parseTypeFields] at parsed
      cases parsed
    | cons name tree rest =>
      rw [parseTypeFields] at parsed
      by_cases full : 256 ≤ index
      · rw [if_pos full] at parsed
        cases parsed
      · rw [if_neg full] at parsed
        obtain ⟨r, s₁, first, last⟩ := Parsed.andThen_eq_some.mp parsed
        obtain ⟨others, s₂, later, all⟩ := Parsed.andThen_eq_some.mp last
        have named := (parseTypeRef_steady scope.toNames tree).named s namedS
        have more := (parseTypeRef_steady scope.toNames tree).extends_ s namedS
        rw [first] at named more
        have moreRest := (parseTypeFields_steady scope.toNames rest (index + 1)).extends_ s₁ named
        rw [later] at moreRest
        cases all
        cases stand with
        | @cons _ g _ _ one others =>
          have head := each tree List.mem_cons_self s s₁ t s₁ r (s₁.typeAliases.length + 1) namedS namedT known
            (known.of_extends more) first (moreRest.grows.trans grows) (by intro absurd_; cases absurd_) _ one.2
          have tail := ih (fun u member => each u (List.mem_cons_of_mem tree member)) named (known.of_extends more)
            later others
          rw [TypeFields.denote, ← head, ← tail, one.1]

theorem tupleFieldName_reserved (index : Nat) : isReservedHOPPrefixName (tupleFieldName index).text = true := by
  have starts : bytesOf "__hop_" <+: bytesOf "__hop_t" := by
    rw [← List.isPrefixOf_iff_prefix]
    decide
  rw [isReservedHOPPrefixName, List.isPrefixOf_iff_prefix, tupleFieldName, CIdent.text_append, CIdent.lit]
  exact starts.trans (List.prefix_append _ _)

theorem parseTypeItems_head {index : Nat} {items : TypeItems δ} {field : CIdent × TypeRef}
    {fields : List (CIdent × TypeRef)} (parsed : parseTypeItems names items index s = (some (field :: fields), t)) :
    field.1 = tupleFieldName index := by
  cases items with
  | nil =>
    rw [parseTypeItems] at parsed
    cases parsed
  | cons tree rest =>
    rw [parseTypeItems] at parsed
    by_cases full : 256 ≤ index
    · rw [if_pos full] at parsed
      cases parsed
    · rw [if_neg full] at parsed
      obtain ⟨r, s₁, -, last⟩ := Parsed.andThen_eq_some.mp parsed
      obtain ⟨others, s₂, -, all⟩ := Parsed.andThen_eq_some.mp last
      cases all
      rfl

theorem parseTypeFields_head {index : Nat} {fields : TypeFields δ} {field : CIdent × TypeRef}
    {parsedFields : List (CIdent × TypeRef)}
    (parsed : parseTypeFields names fields index s = (some (field :: parsedFields), t)) :
    isReservedHOPPrefixName field.1.text = false := by
  cases fields with
  | nil =>
    rw [parseTypeFields] at parsed
    cases parsed
  | cons name tree rest =>
    rw [parseTypeFields] at parsed
    by_cases full : 256 ≤ index
    · rw [if_pos full] at parsed
      cases parsed
    · rw [if_neg full] at parsed
      obtain ⟨r, s₁, -, last⟩ := Parsed.andThen_eq_some.mp parsed
      obtain ⟨others, s₂, -, all⟩ := Parsed.andThen_eq_some.mp last
      cases all
      exact name.unreserved

theorem Tables.Named.fn_generated {packageName : CIdent} (named : s.Named packageName) {k : Nat} {info : FnTypeAlias}
    (entry : s.fnTypeAliases[k]? = some info) : isGeneratedTypeName info.aliasName = true := by
  rw [named.fns k info entry]
  exact isGeneratedTypeName_fn _ _

theorem Tables.Named.anon_generated {packageName : CIdent} (named : s.Named packageName) {k : Nat}
    {info : AnonTypeInfo} (entry : s.anonTypes[k]? = some info) : isGeneratedTypeName info.cName = true := by
  rw [(named.anons k info entry).1]
  exact isGeneratedTypeName_anon _ _ _

theorem Unique.of_generated {q : Tables} (known : Known scope.toNames t q) {name : CIdent}
    (generated : isGeneratedTypeName name = true) {n : Nat} {ty : Ty κ} (own : Unique scope t (.scalar name) ty) :
    Unique scope t ((TypeRef.scalar name).setBase (resolveAlias q n (TypeRef.scalar name).baseName)) ty := by
  rw [show (TypeRef.scalar name).baseName = name from rfl, resolveAlias_generated known generated,
    TypeRef.scalar_setBase]
  exact own

/-- A name determines its type: no other leaf has its C name, and an alias that its C name is resolved to in a field
determines the same type. -/
theorem determines_name {inField : Bool} {l : Leaf δ} (base : l.isBase = true)
    (apart : ∀ l' r, leafTypeRef scope.toNames l = some r → leafTypeRef scope.toNames l' = some r →
      scope.meaning l' = scope.meaning l)
    (target : inField = true → ∀ d tree c, l = .declared d → scope.target d = some tree → scope.cName d = some c →
      normalizeCoreRuntimeTypeName c.toCIdent = c.toCIdent → tree.isBase = true → Determines scope true tree) :
    Determines scope inField (.TYPE_NAME l) := by
  intro s s' t q r n namedS namedT knownS knownQ parsed grows top
  rw [parseTypeRef, Prod.mk.injEq] at parsed
  obtain ⟨found, rfl⟩ := parsed
  have plain := leafTypeRef_base base found
  have own : Unique scope t r (scope.meaning l) := by
    intro ty stands
    rw [plain] at stands found
    obtain ⟨l', sameName, rfl⟩ := stands.leaf_cases namedT found
    exact apart l' _ found sameName
  cases n with
  | zero => exact own
  | succ n =>
    rw [resolveAlias]
    cases isAlias : findTypeAliasInfoByAliasName q r.baseName with
    | none => exact own
    | some info =>
      dsimp only
      by_cases plainTarget : info.targetType.isPlain = true
      · rw [if_pos plainTarget]
        obtain ⟨member, isName⟩ := findTypeAliasInfo_some isAlias
        obtain ⟨before, reached, d, tree, c, after, isTarget, isCName, same, parsedTarget, earlier⟩ :=
          knownQ info member
        have isDeclared := scope.alias_named d c l r (by rw [isTarget]; rfl) isCName found (isName.symm.trans same)
        subst isDeclared
        have inField_ : inField = true := by
          cases inField with
          | true => rfl
          | false => cases top rfl
        have normal : normalizeCoreRuntimeTypeName c.toCIdent = c.toCIdent := by
          have names := found
          simp only [leafTypeRef, isCName, Option.map_some, Option.some.injEq] at names
          exact (congrArg TypeRef.baseName names).trans (isName.symm.trans same)
        have baseTarget := parseTypeRef_plain parsedTarget plainTarget
        have deeper := target inField_ d tree c rfl isTarget isCName normal baseTarget before after t q
          info.targetType n reached.named namedT (reached.known.mono
            ((((parseTypeRef_steady scope.toNames tree).extends_ before reached.named).grows.trans
              (by rw [parsedTarget]; exact .refl _)).trans earlier)) knownQ parsedTarget earlier
          (by intro absurd_; cases absurd_)
        have shapes : r.setBase (resolveAlias q n info.targetType.baseName) =
            info.targetType.setBase (resolveAlias q n info.targetType.baseName) := by
          rw [plain, parseTypeRef_base baseTarget parsedTarget]
          rfl
        rw [shapes, TypeTree.denote, scope.target_meaning d tree isTarget]
        exact deeper
      · rw [if_neg plainTarget]
        exact own

/-- The type reference of a representable tree stands for its type only. -/
theorem Representable.determines {inField : Bool} {tree : TypeTree δ} (one : Representable scope inField tree) :
    Determines scope inField tree := by
  induction one with
  | name base apart _ ih => exact determines_name base apart ih
  | @value inField v one ih =>
    intro s s' t q r n namedS namedT knownS knownQ parsed grows top
    rw [parseTypeRef, Prod.mk.injEq] at parsed
    obtain ⟨found, rfl⟩ := parsed
    have asTree := ih s s t q r n namedS namedT knownS knownQ
      (by rw [TypeValue.tree_parse scope.toNames one.no_optional, found]) grows top
    rw [TypeValue.tree_denote] at asTree
    rw [TypeTree.denote]
    exact asTree
  | @ref inField child base one ih =>
    intro s s' t q r n namedS namedT knownS knownQ parsed grows top
    rw [parseTypeRef] at parsed
    obtain ⟨child', s₁, first, last⟩ := Parsed.andThen_eq_some.mp parsed
    cases last
    have inner := ih s _ t q child' n namedS namedT knownS knownQ first grows top
    intro ty stands
    rw [TypeRef.pointTo_baseName, ← TypeRef.pointTo_setBase] at stands
    rw [TypeTree.denote]
    rcases base with isBase | isArray
    · rw [parseTypeRef_base isBase first] at stands inner
      obtain ⟨elem, rfl, elemStands⟩ := stands.ref_cases rfl rfl rfl rfl
      rw [inner elem elemStands]
    · have array := TypeRef.arrayOf_eq_some.mp (parseTypeRef_baseArray isArray first)
      rw [array.2] at stands inner
      obtain ⟨elem, rfl, elemStands⟩ := stands.refArray_cases rfl rfl rfl rfl rfl
      have whole := inner (.array child'.arrayLen elem) (.array (by rfl) elemStands)
      rw [← whole]
      rfl
  | @array inField len child base one ih =>
    intro s s' t q r n namedS namedT knownS knownQ parsed grows top
    rw [parseTypeRef] at parsed
    obtain ⟨child', s₁, first, last⟩ := Parsed.andThen_eq_some.mp parsed
    rw [Prod.mk.injEq] at last
    obtain ⟨made, rfl⟩ := last
    obtain ⟨m, isLen, made⟩ := Option.bind_eq_some_iff.mp made
    have length : m = (len.getD 0).toNat := by
      obtain ⟨k, rfl, fits⟩ := Option.bind_eq_some_iff.mp isLen
      rw [Option.ite_none_right_eq_some, Option.some.injEq] at fits
      exact fits.2.symm
    obtain ⟨-, rfl⟩ := TypeRef.arrayOf_eq_some.mp made
    have inner := ih s _ t q child' n namedS namedT knownS knownQ first grows top
    intro ty stands
    have plain := parseTypeRef_base base first
    rw [plain] at stands inner
    obtain ⟨elem, rfl, elemStands⟩ := stands.array_cases rfl rfl rfl rfl
    rw [inner elem elemStands, TypeTree.denote, ← length]
    rfl
  | @slice inField child base one ih =>
    intro s s' t q r n namedS namedT knownS knownQ parsed grows top
    rw [parseTypeRef] at parsed
    obtain ⟨child', s₁, first, last⟩ := Parsed.andThen_eq_some.mp parsed
    rw [Prod.mk.injEq] at last
    obtain ⟨made, rfl⟩ := last
    obtain ⟨-, rfl⟩ := TypeRef.sliceOf_eq_some.mp made
    have inner := ih s _ t q child' n namedS namedT knownS knownQ first grows top
    intro ty stands
    rw [parseTypeRef_base base first] at stands inner
    obtain ⟨elem, rfl, elemStands⟩ := stands.slice_cases false rfl rfl rfl rfl
    rw [inner elem elemStands, TypeTree.denote]
    rfl
  | @mutslice inField child base one ih =>
    intro s s' t q r n namedS namedT knownS knownQ parsed grows top
    rw [parseTypeRef] at parsed
    obtain ⟨child', s₁, first, last⟩ := Parsed.andThen_eq_some.mp parsed
    rw [Prod.mk.injEq] at last
    obtain ⟨made, rfl⟩ := last
    obtain ⟨-, rfl⟩ := TypeRef.sliceOf_eq_some.mp made
    have inner := ih s _ t q child' n namedS namedT knownS knownQ first grows top
    intro ty stands
    rw [parseTypeRef_base base first] at stands inner
    obtain ⟨elem, rfl, elemStands⟩ := stands.slice_cases true rfl rfl rfl rfl
    rw [inner elem elemStands, TypeTree.denote]
    rfl
  | @fnNone inField apart =>
    intro s s' t q r n namedS namedT knownS knownQ parsed grows top
    rw [parseTypeRef, parseFnChildren] at parsed
    obtain ⟨parts, s₁, first, last⟩ := Parsed.andThen_eq_some.mp parsed
    cases first
    obtain ⟨namedS', -, ⟨k, entry⟩, -⟩ := @ensureFnTypeAlias_spec _ (.scalar (.lit "void" (by decide))) [] false _ namedS
    cases last
    have later := getElem?_of_isPrefix grows.fns entry
    refine Unique.of_generated knownQ (namedS'.fn_generated entry) ?_
    intro ty stands
    obtain ⟨params, result, rfl, length, resultStands⟩ := stands.fn_cases namedT later
    obtain ⟨l, found, rfl⟩ := resultStands.leaf_cases (l := .constBuiltin .VOID) namedT rfl
    rw [apart l _ rfl found, List.eq_nil_of_length_eq_zero length.symm, TypeTree.denote, FnChildren.params,
      FnChildren.result_, FnChildren.isVariadic]
  | @fnResult inField tree one ih =>
    intro s s' t q r n namedS namedT knownS knownQ parsed grows top
    rw [parseTypeRef, parseFnChildren] at parsed
    obtain ⟨parts, s₁, inner, last⟩ := Parsed.andThen_eq_some.mp parsed
    obtain ⟨r', s₂, first, same⟩ := Parsed.andThen_eq_some.mp inner
    have named := (parseTypeRef_steady scope.toNames tree).named s namedS
    rw [first] at named
    cases same
    obtain ⟨namedS', more, ⟨k, entry⟩, -⟩ := @ensureFnTypeAlias_spec _ r' [] false _ named
    cases last
    have later := getElem?_of_isPrefix grows.fns entry
    refine Unique.of_generated knownQ (namedS'.fn_generated entry) ?_
    intro ty stands
    obtain ⟨params, result, rfl, length, resultStands⟩ := stands.fn_cases namedT later
    have sameResult := ih s _ t q r' 0 namedS namedT knownS knownQ first (more.grows.trans grows) (fun _ => rfl) result
      resultStands
    rw [sameResult, List.eq_nil_of_length_eq_zero length.symm, TypeTree.denote, FnChildren.params, FnChildren.result_,
      FnChildren.isVariadic]
  | @tuple inField items each ih =>
    intro s s' t q r n namedS namedT knownS knownQ parsed grows top
    rw [parseTypeRef] at parsed
    obtain ⟨fields, s₁, first, last⟩ := Parsed.andThen_eq_some.mp parsed
    have named := (parseTypeItems_steady scope.toNames items 0).named s namedS
    rw [first] at named
    by_cases few : fields.length < 2
    · rw [if_pos few] at last
      cases last
    · rw [if_neg few] at last
      obtain ⟨namedS', more, ⟨k, entry⟩, -⟩ := @ensureAnonTypeByFields_spec _ false fields _ named
      cases last
      have later := getElem?_of_isPrefix grows.anons entry
      refine Unique.of_generated knownQ (namedS'.anon_generated entry) ?_
      intro ty stands
      rcases stands.anon_cases namedT later with ⟨tys, rfl, -, -, -, stand⟩ | ⟨tys, rfl, unreserved, -⟩
      · rw [Determines.items ih namedS namedT knownS first (more.grows.trans grows) stand, TypeTree.denote]
      · cases fields with
        | nil => exact absurd (by decide) few
        | cons field fields =>
          have reserved := unreserved field List.mem_cons_self
          rw [parseTypeItems_head first, tupleFieldName_reserved] at reserved
          cases reserved
  | @anon inField isUnion fields each ih =>
    intro s s' t q r n namedS namedT knownS knownQ parsed grows top
    rw [parseTypeRef] at parsed
    obtain ⟨parsedFields, s₁, first, last⟩ := Parsed.andThen_eq_some.mp parsed
    have named := (parseTypeFields_steady scope.toNames fields 0).named s namedS
    rw [first] at named
    obtain ⟨namedS', more, ⟨k, entry⟩, -⟩ := @ensureAnonTypeByFields_spec _ isUnion parsedFields _ named
    cases last
    have later := getElem?_of_isPrefix grows.anons entry
    refine Unique.of_generated knownQ (namedS'.anon_generated entry) ?_
    intro ty stands
    rcases stands.anon_cases namedT later with ⟨tys, rfl, -, many, isNamed, -⟩ | ⟨tys, rfl, -, stand⟩
    · cases parsedFields with
      | nil => cases many
      | cons field parsedFields =>
        have unreserved := parseTypeFields_head first
        rw [isNamed 0 field rfl, tupleFieldName_reserved] at unreserved
        cases unreserved
    · rw [Determines.fields ih namedS namedT knownS first (more.grows.trans grows) stand, TypeTree.denote]

end HopHop.CBackend
