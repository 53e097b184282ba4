import HopHop.TypeAssign
import HopHop.TypeIntern

namespace HopHop.TypeTable

/-- `d` is reached from the struct `s` along first embedded fields. -/
inductive EmbedsFirst (c : TypeTable) : TypeId → TypeId → Prop
  | field {s d : TypeId} {f : TCField} : c.findEmbeddedField s = some f → c.Peels f.typeId d → EmbedsFirst c s d
  | step {s m d : TypeId} {f : TCField} : c.findEmbeddedField s = some f → c.Peels f.typeId m → EmbedsFirst c m d →
      EmbedsFirst c s d

/-- The ways in which memory that holds an `s` may be read as a `d`, both without aliases: an ancestor at the front
of the struct, a view of the elements, a shorter array, the same slice with no more rights, the bytes of a string. -/
inductive ViewOf (c : TypeTable) (d s : TypeId) : Prop
  | ancestor (embeds : EmbedsFirst c s d)
  | sliceOfArray {dt st : TCType} (atD : c.entry d = some dt) (atS : c.entry s = some st) (slice : dt.kind = .SLICE)
      (array : st.kind = .ARRAY) (elem : c.SameUpToAlias dt.baseType st.baseType)
  | narrowedSlice {dt st : TCType} (atD : c.entry d = some dt) (atS : c.entry s = some st) (dSlice : dt.kind = .SLICE)
      (sSlice : st.kind = .SLICE) (elem : c.SameUpToAlias dt.baseType st.baseType)
      (rights : dt.isMutable → st.isMutable)
  | shorterArray {dt st : TCType} (atD : c.entry d = some dt) (atS : c.entry s = some st) (dArray : dt.kind = .ARRAY)
      (sArray : st.kind = .ARRAY) (elem : c.SameUpToAlias dt.baseType st.baseType) (len : dt.arrayLen ≤ st.arrayLen)
  | bytesOfString (str : s = c.typeStr) (bytes : c.typeIsU8Slice d false = true)

/-- A pointee `d` of the target fits memory that holds a pointee `s` of the source. -/
def PointeeFits (c : TypeTable) (d s : TypeId) : Prop :=
  c.SameUpToAlias d s ∨ ∃ d' s', c.Peels d d' ∧ c.Peels s s' ∧ c.Bare d' ∧ c.Bare s' ∧ ViewOf c d' s'

/-- What a pointer or reference type gives: whether it may be written through, and its pointee. -/
def pointerOf (c : TypeTable) (id : TypeId) : Option (Bool × TypeId) :=
  match c.entry (c.resolveAliasBaseType id) with
  | none => none
  | some t => if t.kind = .PTR ∨ t.kind = .REF then some (t.isMutable, t.baseType) else none

/-- Assignment from one pointer type to the other neither gains write access nor reads the pointee as something
it is not. -/
def PreservesPointee (c : TypeTable) (dstType srcType : TypeId) : Prop :=
  ∀ dMut d sMut s, c.pointerOf dstType = some (dMut, d) → c.pointerOf srcType = some (sMut, s) →
    (dMut → sMut) ∧ PointeeFits c d s

def kindOf (c : TypeTable) (id : TypeId) : TCTypeKind := ((c.entry id).map TCType.kind).getD .INVALID

def arrayLenOf (c : TypeTable) (id : TypeId) : UInt32 := ((c.entry id).map TCType.arrayLen).getD 0

/-- The comparison of the two pointees made no use of a conversion of values: no boxing in a `FmtValue`, no array
filled up to a greater length, no slice taken through a pointer, and for a pointee of another kind (a built-in type,
an optional, a pointer, a tuple and so on) no other type than the same. -/
def NoConversion (c : TypeTable) (d s : TypeId) : Prop :=
  if c.typeIsFmtValue d then
    c.SameUpToAlias d s ∨ EmbedsFirst c (c.resolveAliasBaseType s) (c.resolveAliasBaseType d)
  else
    match c.kindOf d with
    | .NAMED | .ANON_STRUCT => True
    | .ARRAY => c.arrayLenOf d ≤ c.arrayLenOf (c.resolveAliasBaseType s)
    | .SLICE => c.kindOf (c.resolveAliasBaseType s) ≠ .PTR
    | _ => c.SameUpToAlias d s

/-- The condition for a reference: byte views of a string keep its rights, other pointees are not converted. -/
def RefersPlainly (c : TypeTable) (dstType srcType : TypeId) : Prop :=
  c.kindOf dstType = .REF → ∀ dMut d sMut s, c.pointerOf dstType = some (dMut, d) →
    c.pointerOf srcType = some (sMut, s) →
      if s = c.typeStr ∧ c.typeIsU8Slice d false then (dMut → sMut) else NoConversion c d s

/-- What the set-up of the table and the resolution of fields see to: the ids the checker keeps name entries of their
kinds, an embedded field has a struct type, and peeling aliases comes to an end. -/
structure Checked (c : TypeTable) : Prop where
  anytype : ∀ t, c.entry c.typeAnytype = some t → t.kind = .ANYTYPE
  untypedInt : ∀ t, c.entry c.typeUntypedInt = some t → t.kind = .UNTYPED_INT
  untypedFloat : ∀ t, c.entry c.typeUntypedFloat = some t → t.kind = .UNTYPED_FLOAT
  rawptr : ∀ t, c.entry c.typeRawptr = some t → t.kind = .BUILTIN
  str : ∀ t, c.entry c.typeStr = some t → t.kind = .BUILTIN ∨ t.kind = .NAMED
  embedded : ∀ t ∈ c.types, ∀ f ∈ c.fieldsOf t, f.embedded →
    c.kindOf f.typeId = .NAMED ∨ c.kindOf f.typeId = .ANON_STRUCT
  bare : ∀ id, c.Bare (c.resolveAliasBaseType id)
  peeled : ∀ id base, c.AliasStep id base → c.resolveAliasBaseType id = c.resolveAliasBaseType base


section

variable {c : TypeTable}

theorem SameUpToAlias.peel_right {a b r : TypeId} (peels : c.Peels b r) (same : c.SameUpToAlias a r) :
    c.SameUpToAlias a b := by
  induction peels using Relation.ReflTransGen.head_induction_on with
  | refl => exact same
  | head step _ ih => exact .right step ih

theorem SameUpToAlias.peel_left {a b r : TypeId} (peels : c.Peels a r) (same : c.SameUpToAlias r b) :
    c.SameUpToAlias a b := by
  induction peels using Relation.ReflTransGen.head_induction_on with
  | refl => exact same
  | head step _ ih => exact .left step ih

theorem kindOf_eq {id : TypeId} {t : TCType} (atId : c.entry id = some t) : c.kindOf id = t.kind := by
  simp [kindOf, atId]

theorem arrayLenOf_eq {id : TypeId} {t : TCType} (atId : c.entry id = some t) : c.arrayLenOf id = t.arrayLen := by
  simp [arrayLenOf, atId]

theorem Bare.of_kindOf {id : TypeId} (kind : c.kindOf id ≠ .ALIAS) : c.Bare id := by
  intro t atId
  rwa [← kindOf_eq atId]

theorem Bare.peel_eq {id r : TypeId} (bare : c.Bare id) (peels : c.Peels id r) : r = id := by
  rcases Relation.ReflTransGen.cases_head peels with same | ⟨next, step, -⟩
  · exact same.symm
  · exact absurd step bare.not_step

/-- The type a resolution comes to is the one the aliases lead to. -/
theorem resolve_eq_of_peels (checked : c.Checked) {id r : TypeId} (peels : c.Peels id r) (bare : c.Bare r) :
    c.resolveAliasBaseType id = r := by
  induction peels using Relation.ReflTransGen.head_induction_on with
  | refl => exact resolveAliasBaseType_bare bare
  | head step _ ih => rw [checked.peeled _ _ step, ih]

theorem peels_resolve {id : TypeId} {t : TCType} (atR : c.entry (c.resolveAliasBaseType id) = some t) :
    c.Peels id (c.resolveAliasBaseType id) := by
  cases resolved : c.resolveAliasBaseType id with
  | none =>
    rw [resolved] at atR
    cases atR
  | some base => exact resolveAliasFrom_peels resolved

theorem findEmbeddedField_spec {id : TypeId} {f : TCField} (found : c.findEmbeddedField id = some f) :
    ∃ t, c.entry id = some t ∧ t.kind = .NAMED ∧ f ∈ c.fieldsOf t ∧ f.embedded := by
  unfold findEmbeddedField at found
  split at found
  · cases found
  · rename_i t atId
    split at found
    · exact ⟨t, atId, ‹_›, List.mem_of_find?_eq_some found, List.find?_some found⟩
    · cases found

theorem embedded_kind (checked : c.Checked) {id : TypeId} {f : TCField} (found : c.findEmbeddedField id = some f) :
    c.kindOf f.typeId = .NAMED ∨ c.kindOf f.typeId = .ANON_STRUCT := by
  obtain ⟨t, atId, -, member, embedded⟩ := findEmbeddedField_spec found
  obtain ⟨i, -, atI⟩ := Option.bind_eq_some_iff.mp atId
  exact checked.embedded t (List.mem_of_getElem? atI) f member embedded

theorem EmbedsFirst.source_kind {s d : TypeId} (embeds : EmbedsFirst c s d) : c.kindOf s = .NAMED := by
  cases embeds with
  | field found _ | step found _ _ =>
    obtain ⟨t, atS, kind, -, -⟩ := findEmbeddedField_spec found
    rw [kindOf_eq atS, kind]

theorem EmbedsFirst.target_kind (checked : c.Checked) {s d : TypeId} (embeds : EmbedsFirst c s d) :
    c.kindOf d = .NAMED ∨ c.kindOf d = .ANON_STRUCT := by
  induction embeds with
  | field found peels =>
    rename_i f
    have kind := embedded_kind checked found
    have bare : c.kindOf f.typeId ≠ .ALIAS := by rcases kind with k | k <;> rw [k] <;> decide
    rw [(Bare.of_kindOf bare).peel_eq peels]
    exact kind
  | step _ _ _ ih => exact ih

theorem embedsFrom_sound {depth : Nat} {cur dst : TypeId} (found : c.embedsFrom depth cur dst = true) :
    EmbedsFirst c cur dst := by
  induction depth generalizing cur with
  | zero => simp [embedsFrom] at found
  | succ depth ih =>
    simp only [embedsFrom] at found
    split at found
    · cases found
    · rename_i f atF
      split at found
      · cases found
      · rename_i next resolved
        have peels := resolveAliasFrom_peels resolved
        split at found
        · rename_i same
          exact .field atF (same ▸ peels)
        · exact .step atF peels (ih found)

theorem isTypeDerivedFromEmbedded_sound {src dst : TypeId} (derived : c.isTypeDerivedFromEmbedded src dst = true) :
    src = dst ∨ EmbedsFirst c src dst := by
  simp only [isTypeDerivedFromEmbedded, Bool.or_eq_true, decide_eq_true_eq] at derived
  exact derived.imp id embedsFrom_sound

/-- The ways `canAssignWithin` comes to accept `s` for `d`; `r` is `s` without its aliases. -/
inductive Accepted (c : TypeTable) (d s r : TypeId) : Prop
  | same (same : d = s ∨ c.Peels s r ∧ d = r)
  | boxed (fmt : c.typeIsFmtValue d = true)
  | ancestor (bare : c.Bare d) (embeds : EmbedsFirst c r d)
  | array {dt st : TCType} (atD : c.entry d = some dt) (atR : c.entry r = some st) (dArray : dt.kind = .ARRAY)
      (sArray : st.kind = .ARRAY) (elem : dt.baseType = st.baseType)
  | bytes {dt st : TCType} (atD : c.entry d = some dt) (atR : c.entry r = some st) (slice : dt.kind = .SLICE)
      (str : r = c.typeStr) (bytes : c.typeIsU8Slice d false = true)
  | slice {dt st : TCType} (atD : c.entry d = some dt) (atR : c.entry r = some st) (dSlice : dt.kind = .SLICE)
      (sSlice : st.kind = .SLICE) (elem : dt.baseType = st.baseType) (rights : dt.isMutable → st.isMutable)
  | sliceOfArray {dt st : TCType} (atD : c.entry d = some dt) (atR : c.entry r = some st) (slice : dt.kind = .SLICE)
      (array : st.kind = .ARRAY) (elem : dt.baseType = st.baseType)
  | sliceThroughPtr {dt st : TCType} (atD : c.entry d = some dt) (atR : c.entry r = some st) (slice : dt.kind = .SLICE)
      (ptr : st.kind = .PTR)
  | converted (kind : c.kindOf d ∉ [.ALIAS, .NAMED, .ANON_STRUCT, .ARRAY, .SLICE])

theorem typeIsU8Slice_weaken {id : TypeId} {requireMutable : Bool}
    (bytes : c.typeIsU8Slice id requireMutable = true) : c.typeIsU8Slice id false = true := by
  simp only [typeIsU8Slice] at bytes ⊢
  split at bytes
  · cases bytes
  · simp only [Bool.false_eq_true, false_implies, and_true, decide_eq_true_eq] at bytes ⊢
    exact ⟨bytes.1, bytes.2.1, bytes.2.2.1⟩

theorem canAssignToSlice_accepted {d r : TypeId} {dt st : TCType} (atD : c.entry d = some dt)
    (atR : c.entry r = some st) (slice : dt.kind = .SLICE) (accepted : c.canAssignToSlice d dt st r = true) :
    Accepted c d r r := by
  unfold canAssignToSlice at accepted
  split at accepted
  · rename_i str
    exact .bytes atD atR slice str.1 (typeIsU8Slice_weaken str.2)
  · split at accepted
    · rename_i slices
      refine .slice atD atR slice slices.1 slices.2 fun mutable => ?_
      simpa [mutable] using accepted
    · split at accepted
      · rename_i array
        exact .sliceOfArray atD atR slice array.1 array.2
      · split at accepted
        · rename_i ptr _
          exact .sliceThroughPtr atD atR slice ptr
        · cases accepted

theorem isIntegerType_kind (checked : c.Checked) {d : TypeId} (bare : c.Bare d) (integer : c.isIntegerType d = true) :
    c.kindOf d ∉ [.ALIAS, .NAMED, .ANON_STRUCT, .ARRAY, .SLICE] := by
  simp only [isIntegerType, resolveAliasBaseType_bare bare] at integer
  split at integer
  · cases integer
  · rename_i t atD
    rw [kindOf_eq atD]
    split at integer
    · rename_i same
      rw [checked.untypedInt t (same ▸ atD)]
      decide
    · simp only [decide_eq_true_eq] at integer
      rw [integer.1]
      decide

theorem isFloatType_kind (checked : c.Checked) {d : TypeId} (bare : c.Bare d) (float : c.isFloatType d = true) :
    c.kindOf d ∉ [.ALIAS, .NAMED, .ANON_STRUCT, .ARRAY, .SLICE] := by
  simp only [isFloatType, resolveAliasBaseType_bare bare] at float
  split at float
  · cases float
  · rename_i t atD
    rw [kindOf_eq atD]
    split at float
    · rename_i same
      rw [checked.untypedFloat t (same ▸ atD)]
      decide
    · simp only [decide_eq_true_eq] at float
      rw [float.1]
      decide

theorem canAssignEntries_accepted (checked : c.Checked) {compare : TypeId → TypeId → Bool} {d r : TypeId}
    {dt st : TCType} (atD : c.entry d = some dt) (atR : c.entry r = some st) (bare : c.Bare d)
    (accepted : c.canAssignEntries compare d r dt st = true) : Accepted c d r r := by
  unfold canAssignEntries at accepted
  split at accepted
  · rename_i kind
    refine .converted ?_
    rw [kindOf_eq atD]
    rcases kind with k | k <;> rw [k] <;> decide
  · split at accepted
    · rename_i kind
      simp only [decide_eq_true_eq] at accepted
      exact .array atD atR kind accepted.1 accepted.2.1
    · split at accepted
      · rename_i derived
        rcases isTypeDerivedFromEmbedded_sound derived.2 with same | embeds
        · exact .same (.inl same.symm)
        · exact .ancestor bare embeds
      · split at accepted
        · rename_i kind
          refine .converted ?_
          rw [kindOf_eq atD, kind]
          decide
        · split at accepted
          · rename_i kind
            refine .converted ?_
            rw [kindOf_eq atD, kind]
            decide
          · split at accepted
            · exact canAssignToSlice_accepted atD atR ‹_› accepted
            · split at accepted
              · rename_i kind
                refine .converted ?_
                rw [kindOf_eq atD, kind]
                decide
              · split at accepted
                · rename_i rawptr
                  refine .converted ?_
                  simp only [isRawptrType, resolveAliasBaseType_bare bare, decide_eq_true_eq] at rawptr
                  rw [kindOf_eq atD, checked.rawptr dt (rawptr.2 ▸ atD)]
                  decide
                · cases accepted

/-- A source that is an alias is accepted in the way its base is. -/
theorem Accepted.peel {d s r : TypeId} (peels : c.Peels s r) (accepted : Accepted c d r r) : Accepted c d s r := by
  cases accepted with
  | same same => exact .same (.inr ⟨peels, same.elim id And.right⟩)
  | boxed fmt => exact .boxed fmt
  | ancestor bare embeds => exact .ancestor bare embeds
  | array atD atR dArray sArray elem => exact .array atD atR dArray sArray elem
  | bytes atD atR slice str bytes => exact .bytes atD atR slice str bytes
  | slice atD atR dSlice sSlice elem rights => exact .slice atD atR dSlice sSlice elem rights
  | sliceOfArray atD atR slice array elem => exact .sliceOfArray atD atR slice array elem
  | sliceThroughPtr atD atR slice ptr => exact .sliceThroughPtr atD atR slice ptr
  | converted kind => exact .converted kind

/-- What `canAssignWithin` accepts: the recursion goes on only to peel an alias off the source. -/
theorem canAssignWithin_accepted (checked : c.Checked) {depth : Nat} {d s : TypeId}
    (accepted : c.canAssignWithin depth d s = true) : Accepted c d s (c.resolveAliasBaseType s) := by
  induction depth generalizing s with
  | zero => simp [canAssignWithin] at accepted
  | succ depth ih =>
    simp only [canAssignWithin] at accepted
    split at accepted
    · rename_i same
      exact .same (.inl same)
    · split at accepted
      · exact .boxed ‹_›
      · split at accepted
        · rename_i any
          refine .converted ?_
          cases atD : c.entry d with
          | none => simp [kindOf, atD]
          | some dt =>
            rw [kindOf_eq atD, checked.anytype dt (any ▸ atD)]
            decide
        · split at accepted
          · rename_i dt st atD atS
            split at accepted
            · cases accepted
            · rename_i notAlias
              have bare : c.Bare d := Bare.of_entry atD notAlias
              split at accepted
              · rename_i literal
                exact .converted (isIntegerType_kind checked bare literal.2)
              · split at accepted
                · rename_i literal
                  exact .converted (isFloatType_kind checked bare literal.2)
                · split at accepted
                  · rename_i literal
                    exact .converted (isFloatType_kind checked bare literal.2)
                  · split at accepted
                    · split at accepted
                      · cases accepted
                      · rename_i resolvable
                        have inner := ih accepted
                        rw [resolveAliasBaseType_bare (checked.bare s)] at inner
                        obtain ⟨base, resolved⟩ := Option.ne_none_iff_exists'.mp (not_or.mp resolvable).1
                        rw [resolved] at inner ⊢
                        exact inner.peel (resolveAliasFrom_peels resolved)
                    · rename_i srcNotAlias
                      have entries := canAssignEntries_accepted checked atD atS bare accepted
                      rwa [resolveAliasBaseType_bare (Bare.of_entry atS srcNotAlias)]
          · cases accepted

theorem typeIsFmtValue_spec {d : TypeId} (fmt : c.typeIsFmtValue d = true) :
    ∃ t, c.entry (c.resolveAliasBaseType d) = some t ∧ t.kind = .NAMED := by
  simp only [typeIsFmtValue] at fmt
  split at fmt
  · cases fmt
  · rename_i t atD
    simp only [decide_eq_true_eq] at fmt
    exact ⟨t, atD, fmt.1⟩

theorem not_fmtValue {d : TypeId} (bare : c.Bare d) (kind : c.kindOf d ≠ .NAMED) : ¬c.typeIsFmtValue d = true := by
  intro fmt
  obtain ⟨t, atD, named⟩ := typeIsFmtValue_spec fmt
  rw [resolveAliasBaseType_bare bare] at atD
  rw [kindOf_eq atD] at kind
  exact kind named

theorem typeIsU8Slice_kind {d : TypeId} {requireMutable : Bool} (bare : c.Bare d)
    (bytes : c.typeIsU8Slice d requireMutable = true) : c.kindOf d = .SLICE := by
  simp only [typeIsU8Slice, resolveAliasBaseType_bare bare] at bytes
  split at bytes
  · cases bytes
  · rename_i t atD
    simp only [decide_eq_true_eq] at bytes
    rw [kindOf_eq atD, bytes.1]

theorem kindOf_str (checked : c.Checked) : c.kindOf c.typeStr ≠ .PTR := by
  cases atStr : c.entry c.typeStr with
  | none => simp [kindOf, atStr]
  | some t =>
    rw [kindOf_eq atStr]
    rcases checked.str t atStr with kind | kind <;> rw [kind] <;> decide

/-- The kinds of the two sides of a view. -/
theorem ViewOf.kinds (checked : c.Checked) {d s : TypeId} (view : ViewOf c d s) (bare : c.Bare d) :
    (c.kindOf d = .NAMED ∨ c.kindOf d = .ANON_STRUCT) ∧ EmbedsFirst c s d
      ∨ c.kindOf d = .SLICE ∧ c.kindOf s ≠ .PTR
      ∨ c.kindOf d = .ARRAY ∧ c.arrayLenOf d ≤ c.arrayLenOf s := by
  cases view with
  | ancestor embeds => exact .inl ⟨embeds.target_kind checked, embeds⟩
  | sliceOfArray atD atS slice array _ =>
    refine .inr (.inl ⟨by rw [kindOf_eq atD, slice], ?_⟩)
    rw [kindOf_eq atS, array]
    decide
  | narrowedSlice atD atS dSlice sSlice _ _ =>
    refine .inr (.inl ⟨by rw [kindOf_eq atD, dSlice], ?_⟩)
    rw [kindOf_eq atS, sSlice]
    decide
  | shorterArray atD atS dArray _ _ len =>
    refine .inr (.inr ⟨by rw [kindOf_eq atD, dArray], ?_⟩)
    rwa [arrayLenOf_eq atD, arrayLenOf_eq atS]
  | bytesOfString str bytes =>
    exact .inr (.inl ⟨typeIsU8Slice_kind bare bytes, str ▸ kindOf_str checked⟩)

/-- Same up to aliases, between a bare type and what the other resolves to: one constructor and one length. -/
theorem SameUpToAlias.head_eq {d s r : TypeId} {dt rt : TCType} (same : c.SameUpToAlias d s) (peels : c.Peels s r)
    (atD : c.entry d = some dt) (atR : c.entry r = some rt) (bareD : c.Bare d) (bareR : c.Bare r) :
    dt = rt ∨ ∃ sd sr, c.shapeOf dt = some sd ∧ c.shapeOf rt = some sr ∧ sd.head = sr.head := by
  rcases same.bare .refl peels bareD bareR with rfl | ⟨sd, sr, shapeD, shapeR, heads, -⟩
  · rw [atD] at atR
    exact .inl (Option.some.inj atR)
  · rw [shape_eq atD] at shapeD
    rw [shape_eq atR] at shapeR
    exact .inr ⟨sd, sr, shapeD, shapeR, heads⟩

/-- A view of a bare pointee, read off the definition. -/
theorem PointeeFits.cases (checked : c.Checked) {d s : TypeId} (fits : PointeeFits c d s) (bare : c.Bare d) :
    c.SameUpToAlias d s ∨ ViewOf c d (c.resolveAliasBaseType s) := by
  rcases fits with same | ⟨d', s', peelsD, peelsS, -, bareS, view⟩
  · exact .inl same
  · rw [bare.peel_eq peelsD] at view
    rw [resolve_eq_of_peels checked peelsS bareS]
    exact .inr view

theorem noConversion_bare {d s : TypeId} (bare : c.Bare d) (kind : c.kindOf d ≠ .NAMED) :
    NoConversion c d s ↔
      match c.kindOf d with
      | .NAMED | .ANON_STRUCT => True
      | .ARRAY => c.arrayLenOf d ≤ c.arrayLenOf (c.resolveAliasBaseType s)
      | .SLICE => c.kindOf (c.resolveAliasBaseType s) ≠ .PTR
      | _ => c.SameUpToAlias d s := by
  rw [NoConversion, if_neg (not_fmtValue bare kind)]

theorem noConversion_other {d s : TypeId} (kind : c.kindOf d ∉ [.ALIAS, .NAMED, .ANON_STRUCT, .ARRAY, .SLICE]) :
    NoConversion c d s ↔ c.SameUpToAlias d s := by
  simp only [List.mem_cons, List.not_mem_nil, or_false, not_or] at kind
  rw [noConversion_bare (Bare.of_kindOf kind.1) kind.2.1]
  split <;> simp_all

theorem Accepted.fits {d s : TypeId} (checked : c.Checked)
    (accepted : Accepted c d s (c.resolveAliasBaseType s)) (plain : NoConversion c d s) : PointeeFits c d s := by
  cases accepted with
  | same same =>
    rcases same with rfl | ⟨peels, same⟩
    · exact .inl (.refl _)
    · rw [same]
      exact .inl peels.same
  | boxed fmt =>
    rw [NoConversion, if_pos fmt] at plain
    rcases plain with same | embeds
    · exact .inl same
    · obtain ⟨dt, atD, -⟩ := typeIsFmtValue_spec fmt
      have named := embeds.source_kind
      cases atS : c.entry (c.resolveAliasBaseType s) with
      | none => simp [kindOf, atS] at named
      | some st =>
        exact .inr ⟨_, _, peels_resolve atD, peels_resolve atS, checked.bare d, checked.bare s, .ancestor embeds⟩
  | ancestor bare embeds =>
    have named := embeds.source_kind
    cases atS : c.entry (c.resolveAliasBaseType s) with
    | none => simp [kindOf, atS] at named
    | some st => exact .inr ⟨d, _, .refl, peels_resolve atS, bare, checked.bare s, .ancestor embeds⟩
  | array atD atR dArray sArray elem =>
    have bare : c.Bare d := Bare.of_entry atD (by simp [dArray])
    have kind : c.kindOf d = .ARRAY := by rw [kindOf_eq atD, dArray]
    rw [noConversion_bare bare (by simp [kind]), kind, arrayLenOf_eq atD, arrayLenOf_eq atR] at plain
    exact .inr ⟨d, _, .refl, peels_resolve atR, bare, checked.bare s,
      .shorterArray atD atR dArray sArray (elem ▸ .refl _) plain⟩
  | bytes atD atR slice str bytes =>
    exact .inr ⟨d, _, .refl, peels_resolve atR, Bare.of_entry atD (by simp [slice]), checked.bare s,
      .bytesOfString str bytes⟩
  | slice atD atR dSlice sSlice elem rights =>
    exact .inr ⟨d, _, .refl, peels_resolve atR, Bare.of_entry atD (by simp [dSlice]), checked.bare s,
      .narrowedSlice atD atR dSlice sSlice (elem ▸ .refl _) rights⟩
  | sliceOfArray atD atR slice array elem =>
    exact .inr ⟨d, _, .refl, peels_resolve atR, Bare.of_entry atD (by simp [slice]), checked.bare s,
      .sliceOfArray atD atR slice array (elem ▸ .refl _)⟩
  | sliceThroughPtr atD atR slice ptr =>
    have bare : c.Bare d := Bare.of_entry atD (by simp [slice])
    have kind : c.kindOf d = .SLICE := by rw [kindOf_eq atD, slice]
    rw [noConversion_bare bare (by simp [kind]), kind, kindOf_eq atR] at plain
    exact absurd ptr plain
  | converted kind => exact .inl ((noConversion_other kind).mp plain)

theorem Accepted.plain {d s : TypeId} (checked : c.Checked)
    (accepted : Accepted c d s (c.resolveAliasBaseType s)) (fits : PointeeFits c d s) : NoConversion c d s := by
  cases accepted with
  | same same =>
    by_cases fmt : c.typeIsFmtValue d
    · rw [NoConversion, if_pos fmt]
      rcases same with rfl | ⟨peels, same⟩
      · exact .inl (.refl _)
      · exact .inl (same ▸ peels.same)
    · rw [NoConversion, if_neg fmt]
      have resolved : c.kindOf d ≠ .ALIAS → c.resolveAliasBaseType s = d := by
        intro kind
        rcases same with rfl | ⟨-, same⟩
        · exact resolveAliasBaseType_bare (Bare.of_kindOf kind)
        · exact same.symm
      have sameTypes : c.SameUpToAlias d s := by
        rcases same with rfl | ⟨peels, same⟩
        · exact .refl _
        · exact same ▸ peels.same
      split
      · trivial
      · trivial
      · rename_i kind
        rw [resolved (by simp [kind])]
        exact UInt32.le_refl _
      · rename_i kind
        rw [resolved (by simp [kind]), kind]
        decide
      · exact sameTypes
  | boxed fmt =>
    rw [NoConversion, if_pos fmt]
    rcases fits with same | ⟨d', s', peelsD, peelsS, bareD, bareS, view⟩
    · exact .inl same
    · obtain ⟨dt, atD, named⟩ := typeIsFmtValue_spec fmt
      rw [resolve_eq_of_peels checked peelsD bareD] at atD ⊢
      rw [resolve_eq_of_peels checked peelsS bareS]
      rcases view.kinds checked bareD with ⟨-, embeds⟩ | ⟨kind, -⟩ | ⟨kind, -⟩
      · exact .inr embeds
      · simp [kindOf_eq atD, named] at kind
      · simp [kindOf_eq atD, named] at kind
  | ancestor bare embeds =>
    by_cases fmt : c.typeIsFmtValue d
    · rw [NoConversion, if_pos fmt, resolveAliasBaseType_bare bare]
      exact .inr embeds
    · rw [NoConversion, if_neg fmt]
      rcases embeds.target_kind checked with kind | kind <;> simp [kind]
  | @array dt st atD atR dArray sArray elem =>
    have bare : c.Bare d := Bare.of_entry atD (by simp [dArray])
    have kind : c.kindOf d = .ARRAY := by rw [kindOf_eq atD, dArray]
    rw [noConversion_bare bare (by simp [kind])]
    simp only [kind]
    rcases fits.cases checked bare with same | view
    · rw [arrayLenOf_eq atD, arrayLenOf_eq atR]
      rcases same.head_eq (peels_resolve atR) atD atR bare (checked.bare s) with same | ⟨sd, sr, shapeD, shapeR, heads⟩
      · rw [same]
        exact UInt32.le_refl _
      · simp only [shapeOf, dArray, Option.some.injEq] at shapeD
        simp only [shapeOf, sArray, Option.some.injEq] at shapeR
        rw [← shapeD, ← shapeR] at heads
        simp only [TypeShape.head, TypeShape.map, TypeShape.array.injEq, true_and] at heads
        rw [heads]
        exact UInt32.le_refl _
    · rcases view.kinds checked bare with ⟨other, -⟩ | ⟨other, -⟩ | ⟨-, len⟩
      · simp [kind] at other
      · simp [kind] at other
      · exact len
  | @bytes dt st atD atR slice str bytes =>
    have kind : c.kindOf d = .SLICE := by rw [kindOf_eq atD, slice]
    rw [noConversion_bare (Bare.of_entry atD (by simp [slice])) (by simp [kind])]
    simp only [kind]
    exact str ▸ kindOf_str checked
  | @slice dt st atD atR dSlice sSlice elem rights =>
    have kind : c.kindOf d = .SLICE := by rw [kindOf_eq atD, dSlice]
    rw [noConversion_bare (Bare.of_entry atD (by simp [dSlice])) (by simp [kind])]
    simp [kind, kindOf_eq atR, sSlice]
  | @sliceOfArray dt st atD atR slice array elem =>
    have kind : c.kindOf d = .SLICE := by rw [kindOf_eq atD, slice]
    rw [noConversion_bare (Bare.of_entry atD (by simp [slice])) (by simp [kind])]
    simp [kind, kindOf_eq atR, array]
  | @sliceThroughPtr dt st atD atR slice ptr =>
    have bare : c.Bare d := Bare.of_entry atD (by simp [slice])
    have kind : c.kindOf d = .SLICE := by rw [kindOf_eq atD, slice]
    rw [noConversion_bare bare (by simp [kind])]
    simp only [kind]
    rcases fits.cases checked bare with same | view
    · rcases same.head_eq (peels_resolve atR) atD atR bare (checked.bare s) with same | ⟨sd, sr, shapeD, shapeR, heads⟩
      · rw [same, ptr] at slice
        cases slice
      · simp only [shapeOf, slice, Option.some.injEq] at shapeD
        simp only [shapeOf, ptr, Option.some.injEq] at shapeR
        rw [← shapeD, ← shapeR] at heads
        simp [TypeShape.head, TypeShape.map] at heads
    · rcases view.kinds checked bare with ⟨other, -⟩ | ⟨-, other⟩ | ⟨other, -⟩
      · simp [kind] at other
      · exact other
      · simp [kind] at other
  | converted kind =>
    rw [noConversion_other kind]
    simp only [List.mem_cons, List.not_mem_nil, or_false, not_or] at kind
    have bare : c.Bare d := Bare.of_kindOf kind.1
    rcases fits.cases checked bare with same | view
    · exact same
    · rcases view.kinds checked bare with ⟨other, -⟩ | ⟨other, -⟩ | ⟨other, -⟩
      · exact absurd other (not_or.mpr ⟨kind.2.1, kind.2.2.1⟩)
      · exact absurd other kind.2.2.2.2
      · exact absurd other kind.2.2.2.1

theorem pointeeFits_iff (checked : c.Checked) {depth : Nat} {d s : TypeId}
    (accepted : c.canAssignWithin depth d s = true) : PointeeFits c d s ↔ NoConversion c d s :=
  have cases := canAssignWithin_accepted checked accepted
  ⟨cases.plain checked, cases.fits checked⟩

theorem noConversion_refl (checked : c.Checked) (d : TypeId) : NoConversion c d d := by
  have accepted : c.canAssignWithin 1 d d = true := by simp [canAssignWithin]
  exact (pointeeFits_iff checked accepted).mp (.inl (.refl d))

theorem typeIsU8Slice_resolve (checked : c.Checked) {d : TypeId} {requireMutable : Bool}
    (bytes : c.typeIsU8Slice d requireMutable = true) :
    c.Peels d (c.resolveAliasBaseType d) ∧ c.typeIsU8Slice (c.resolveAliasBaseType d) false = true := by
  have weak := typeIsU8Slice_weaken bytes
  unfold typeIsU8Slice at weak ⊢
  rw [resolveAliasBaseType_bare (checked.bare d)]
  refine ⟨?_, weak⟩
  split at weak
  · cases weak
  · rename_i t atD
    exact peels_resolve atD

theorem Checked.str_bare (checked : c.Checked) : c.Bare c.typeStr := by
  intro t atStr
  rcases checked.str t atStr with kind | kind <;> rw [kind] <;> decide

theorem fits_bytes (checked : c.Checked) {d : TypeId} {requireMutable : Bool}
    (bytes : c.typeIsU8Slice d requireMutable = true) : PointeeFits c d c.typeStr := by
  obtain ⟨peels, resolved⟩ := typeIsU8Slice_resolve checked bytes
  exact .inr ⟨_, _, peels, .refl, checked.bare d, checked.str_bare, .bytesOfString rfl resolved⟩

/-- The ways one pointer type comes to be accepted for another. -/
inductive PointerCase (c : TypeTable) (dstType : TypeId) (dMut : Bool) (d : TypeId) (sMut : Bool) (s : TypeId) : Prop
  | same (rights : dMut = sMut) (pointee : d = s)
  | bytes (kind : c.kindOf dstType = .REF) (str : s = c.typeStr) (bytes : c.typeIsU8Slice d false = true)
  | compared {depth : Nat} (kind : c.kindOf dstType = .REF) (accepted : c.canAssignWithin depth d s = true)
      (rights : dMut → sMut)
  | owned (kind : c.kindOf dstType ≠ .REF) (rights : sMut = true) (fits : PointeeFits c d s)

theorem pointerOf_bare {id : TypeId} {t : TCType} {isMut : Bool} {base : TypeId} (atId : c.entry id = some t)
    (bare : c.Bare id) (pointer : c.pointerOf id = some (isMut, base)) :
    (t.kind = .PTR ∨ t.kind = .REF) ∧ isMut = t.isMutable ∧ base = t.baseType := by
  simp only [pointerOf, resolveAliasBaseType_bare bare, atId] at pointer
  split at pointer
  · cases pointer
    exact ⟨‹_›, rfl, rfl⟩
  · cases pointer

theorem canAssignPointees_fits (checked : c.Checked) {dst src dstBase srcBase : TCType}
    (atD : c.entry dst.baseType = some dstBase) (atS : c.entry src.baseType = some srcBase)
    (accepted : c.canAssignPointees dst src dstBase srcBase = true) :
    PointeeFits c dst.baseType src.baseType := by
  unfold canAssignPointees at accepted
  simp only at accepted
  split at accepted
  · rename_i same
    obtain ⟨d, resolvedD⟩ := Option.isSome_iff_exists.mp same.1
    obtain ⟨s, resolvedS⟩ := Option.isSome_iff_exists.mp same.2.1
    have equal := same.2.2
    rw [resolvedD, resolvedS] at equal
    refine .inl (.peel_left (resolveAliasFrom_peels resolvedD) ?_)
    rw [equal]
    exact .peel_right (resolveAliasFrom_peels resolvedS) (.refl _)
  · rename_i different
    split at accepted
    · rename_i derived
      obtain ⟨d, resolvedD⟩ := Option.isSome_iff_exists.mp derived.1
      obtain ⟨s, resolvedS⟩ := Option.isSome_iff_exists.mp derived.2.1
      rcases isTypeDerivedFromEmbedded_sound derived.2.2 with same | embeds
      · exact absurd ⟨derived.1, derived.2.1, same.symm⟩ different
      · refine .inr ⟨_, _, ?_, ?_, checked.bare _, checked.bare _, .ancestor embeds⟩
        · rw [resolvedD]
          exact resolveAliasFrom_peels resolvedD
        · rw [resolvedS]
          exact resolveAliasFrom_peels resolvedS
    · split at accepted
      · rename_i bytes
        rw [bytes.1]
        exact fits_bytes checked bytes.2
      · split at accepted
        · rename_i dSlice
          have bareD : c.Bare dst.baseType := Bare.of_entry atD (by simp [dSlice])
          split at accepted
          · rename_i sSlice
            refine .inr ⟨_, _, .refl, .refl, bareD, Bare.of_entry atS (by simp [sSlice.1]),
              .narrowedSlice atD atS dSlice sSlice.1 (sSlice.2 ▸ .refl _) fun mutable => ?_⟩
            simpa [mutable] using accepted
          · simp only [decide_eq_true_eq] at accepted
            exact .inr ⟨_, _, .refl, .refl, bareD, Bare.of_entry atS (by simp [accepted.1]),
              .sliceOfArray atD atS dSlice accepted.1 (accepted.2 ▸ .refl _)⟩
        · cases accepted

theorem canAssignEntries_pointers (checked : c.Checked) {depth : Nat} {dstType srcType : TypeId} {dst src : TCType}
    (atD : c.entry dstType = some dst) (dKind : dst.kind = .PTR ∨ dst.kind = .REF)
    (sKind : src.kind = .PTR ∨ src.kind = .REF)
    (accepted : c.canAssignEntries (c.canAssignWithin depth) dstType srcType dst src = true) :
    PointerCase c dstType dst.isMutable dst.baseType src.isMutable src.baseType := by
  have notNamed : src.kind ≠ .NAMED := by rcases sKind with k | k <;> rw [k] <;> decide
  have notArray : src.kind ≠ .ARRAY := by rcases sKind with k | k <;> rw [k] <;> decide
  rcases dKind with ptr | ref
  · have kind : c.kindOf dstType ≠ .REF := by simp [kindOf_eq atD, ptr]
    simp only [canAssignEntries, ptr, reduceCtorEq, or_self, if_false, notNamed, false_and, if_true,
      canAssignToPtr] at accepted
    split at accepted
    · cases accepted
    · rename_i dstBase atBase
      simp only [notArray, false_and, if_false] at accepted
      split at accepted
      · rename_i srcPtr srcBaseAt
        exact .owned kind (by simp [TCType.isMutable, srcPtr])
          (canAssignPointees_fits checked atBase srcBaseAt accepted)
      · cases accepted
  · have kind : c.kindOf dstType = .REF := by rw [kindOf_eq atD, ref]
    simp only [canAssignEntries, ref, reduceCtorEq, or_self, if_false, notNamed, false_and, if_true,
      canAssignToRef] at accepted
    split at accepted
    · rename_i bytes
      exact .bytes kind bytes.2.1 bytes.2.2
    · split at accepted
      · rename_i bytes
        exact .bytes kind bytes.2.1 bytes.2.2
      · split at accepted
        · rename_i compared
          refine .compared kind compared.2 fun mutable => ?_
          simpa [mutable] using accepted
        · split at accepted
          · rename_i compared
            exact .compared kind compared.2 fun _ => by simp [TCType.isMutable, compared.1]
          · simp only [notArray, false_and, decide_false] at accepted
            cases accepted

theorem pointer_not_literal (checked : c.Checked) {id : TypeId} {t : TCType} (atId : c.entry id = some t)
    (bare : c.Bare id) (kind : t.kind = .PTR ∨ t.kind = .REF) :
    c.isIntegerType id = false ∧ c.isFloatType id = false := by
  have notInt : id ≠ c.typeUntypedInt := by
    intro same
    simp [checked.untypedInt t (same ▸ atId)] at kind
  have notFloat : id ≠ c.typeUntypedFloat := by
    intro same
    simp [checked.untypedFloat t (same ▸ atId)] at kind
  simp only [isIntegerType, isFloatType, resolveAliasBaseType_bare bare, atId, notInt, notFloat, if_false]
  rcases kind with kind | kind <;> simp [kind]

theorem canAssignWithin_pointers (checked : c.Checked) {depth : Nat} {dstType srcType : TypeId} {dMut sMut : Bool}
    {d s : TypeId} (target : c.pointerOf dstType = some (dMut, d)) (source : c.pointerOf srcType = some (sMut, s))
    (accepted : c.canAssignWithin depth dstType srcType = true) : PointerCase c dstType dMut d sMut s := by
  induction depth generalizing srcType with
  | zero => simp [canAssignWithin] at accepted
  | succ depth ih =>
    simp only [canAssignWithin] at accepted
    split at accepted
    · rename_i same
      rw [same, source] at target
      cases target
      exact .same rfl rfl
    · split at accepted
      · rename_i fmt
        obtain ⟨t, atD, named⟩ := typeIsFmtValue_spec fmt
        simp [pointerOf, atD, named] at target
      · split at accepted
        · rename_i any
          have bare : c.Bare dstType := fun t atD => by rw [checked.anytype t (any ▸ atD)]; decide
          cases atD : c.entry dstType with
          | none => simp [pointerOf, resolveAliasBaseType_bare bare, atD] at target
          | some t =>
            obtain ⟨kind, -, -⟩ := pointerOf_bare atD bare target
            simp [checked.anytype t (any ▸ atD)] at kind
        · split at accepted
          · rename_i dst src atD atS
            split at accepted
            · cases accepted
            · rename_i notAlias
              have bare : c.Bare dstType := Bare.of_entry atD notAlias
              obtain ⟨dKind, rfl, rfl⟩ := pointerOf_bare atD bare target
              have notLiteral := pointer_not_literal checked atD bare dKind
              simp only [notLiteral, Bool.false_eq_true, and_false, if_false] at accepted
              split at accepted
              · split at accepted
                · cases accepted
                · refine ih ?_ accepted
                  rw [← source]
                  simp only [pointerOf, resolveAliasBaseType_bare (checked.bare srcType)]
              · rename_i srcNotAlias
                obtain ⟨sKind, rfl, rfl⟩ := pointerOf_bare atS (Bare.of_entry atS srcNotAlias) source
                exact canAssignEntries_pointers checked atD dKind sKind accepted
          · cases accepted

/-- Assignment between pointers keeps the pointee and the rights exactly when a reference is not formed by way of a
conversion of values. -/
theorem canAssign_preservesPointee_iff (c : TypeTable) (checked : c.Checked) (dstType srcType : TypeId)
    (accepted : c.canAssign dstType srcType = true) :
    c.PreservesPointee dstType srcType ↔ c.RefersPlainly dstType srcType := by
  have byCases := fun dMut d sMut s (target : c.pointerOf dstType = some (dMut, d))
      (source : c.pointerOf srcType = some (sMut, s)) => canAssignWithin_pointers checked target source accepted
  constructor
  · intro preserves kind dMut d sMut s target source
    obtain ⟨rights, fits⟩ := preserves dMut d sMut s target source
    split
    · exact rights
    · rename_i notBytes
      cases byCases dMut d sMut s target source with
      | same _ pointee => exact pointee ▸ noConversion_refl checked d
      | bytes _ str bytes =>
        exact absurd ⟨str, bytes⟩ notBytes
      | compared _ accepted _ => exact (pointeeFits_iff checked accepted).mp fits
      | owned other _ _ => exact absurd kind other
  · intro plain dMut d sMut s target source
    cases byCases dMut d sMut s target source with
    | same rights pointee => exact ⟨fun mutable => rights ▸ mutable, .inl (pointee ▸ .refl _)⟩
    | bytes kind str bytes =>
      have rights := plain kind dMut d sMut s target source
      rw [if_pos ⟨str, bytes⟩] at rights
      exact ⟨rights, str ▸ fits_bytes checked bytes⟩
    | compared kind accepted rights =>
      refine ⟨rights, ?_⟩
      by_cases bytes : s = c.typeStr ∧ c.typeIsU8Slice d false = true
      · exact bytes.1 ▸ fits_bytes checked bytes.2
      · have unconverted := plain kind dMut d sMut s target source
        rw [if_neg bytes] at unconverted
        exact (pointeeFits_iff checked accepted).mpr unconverted
    | owned _ rights fits => exact ⟨fun _ => rights, fits⟩

end

theorem Checked.of_entries {c : TypeTable} (anytype : c.kindOf c.typeAnytype = .ANYTYPE)
    (untypedInt : c.kindOf c.typeUntypedInt = .UNTYPED_INT) (untypedFloat : c.kindOf c.typeUntypedFloat = .UNTYPED_FLOAT)
    (rawptr : c.kindOf c.typeRawptr = .BUILTIN) (str : c.kindOf c.typeStr = .BUILTIN)
    (embedded : ∀ t ∈ c.types, ∀ f ∈ c.fieldsOf t, f.embedded →
      c.kindOf f.typeId = .NAMED ∨ c.kindOf f.typeId = .ANON_STRUCT)
    (bare : ∀ id < c.types.length, c.kindOf (c.resolveAliasBaseType (some id)) ≠ .ALIAS)
    (peeled : ∀ id < c.types.length, ∀ t ∈ c.types[id]?, t.kind = .ALIAS → t.flags.aliasResolved →
      c.resolveAliasBaseType (some id) = c.resolveAliasBaseType t.baseType) :
    c.Checked := by
  have inRange : ∀ {id : TypeId} {t : TCType}, c.entry id = some t →
      ∃ n, id = some n ∧ n < c.types.length ∧ c.types[n]? = some t := by
    intro id t atId
    obtain ⟨n, rfl, atN⟩ := Option.bind_eq_some_iff.mp atId
    exact ⟨n, rfl, (List.getElem?_eq_some_iff.mp atN).1, atN⟩
  constructor
  · intro t atId
    rw [← kindOf_eq atId, anytype]
  · intro t atId
    rw [← kindOf_eq atId, untypedInt]
  · intro t atId
    rw [← kindOf_eq atId, untypedFloat]
  · intro t atId
    rw [← kindOf_eq atId, rawptr]
  · intro t atId
    exact .inl (by rw [← kindOf_eq atId, str])
  · exact embedded
  · intro id
    cases atId : c.entry id with
    | none =>
      have missing : c.Bare id := by simp [Bare, atId]
      rwa [resolveAliasBaseType_bare missing]
    | some t =>
      obtain ⟨n, rfl, below, -⟩ := inRange atId
      exact Bare.of_kindOf (bare n below)
  · rintro id base ⟨t, atId, isAlias, resolved, rfl⟩
    obtain ⟨n, rfl, below, atN⟩ := inRange atId
    exact peeled n below t atN isAlias resolved

/-- The types `[u8 2]`, `[u8 4]` and `[u8]` and a read-only reference to each, after the types every table begins
with. -/
def arrayRefs : TypeTable :=
  let c := initial [] ⟨[], -1⟩ 32
  let (short, c) := c.internArrayType (c.findBuiltinByKind .U8) 2 0 0
  let (long, c) := c.internArrayType (c.findBuiltinByKind .U8) 4 0 0
  let (slice, c) := c.internSliceType (c.findBuiltinByKind .U8) false 0 0
  let (_, c) := c.internRefType short false 0 0
  let (_, c) := c.internRefType long false 0 0
  let (_, c) := c.internRefType slice false 0 0
  c

theorem arrayRefs_checked : arrayRefs.Checked := by
  apply Checked.of_entries <;> decide

/-- A reference to four elements may be taken from a reference to two. -/
theorem canAssign_longer_array :
    arrayRefs.Checked ∧ arrayRefs.canAssign (some 26) (some 25) = true ∧
      ¬arrayRefs.PreservesPointee (some 26) (some 25) := by
  have accepted : arrayRefs.canAssignWithin 1 (some 23) (some 22) = true := by decide
  refine ⟨arrayRefs_checked, by decide +kernel, ?_⟩
  intro preserves
  obtain ⟨-, fits⟩ := preserves false (some 23) false (some 22) (by decide) (by decide)
  have unconverted := (pointeeFits_iff arrayRefs_checked accepted).mp fits
  have notFmt : arrayRefs.typeIsFmtValue (some 23) = false := by decide
  have array : arrayRefs.kindOf (some 23) = .ARRAY := by decide
  have tooLong : ¬arrayRefs.arrayLenOf (some 23) ≤
      arrayRefs.arrayLenOf (arrayRefs.resolveAliasBaseType (some 22)) := by decide
  simp only [NoConversion, notFmt, array, Bool.false_eq_true, if_false] at unconverted
  exact tooLong unconverted

theorem canAssign_slice_view : arrayRefs.PreservesPointee (some 27) (some 26) := by
  apply (canAssign_preservesPointee_iff arrayRefs arrayRefs_checked (some 27) (some 26) (by decide +kernel)).mpr
  intro _ dMut d sMut s target source
  have atTarget : arrayRefs.pointerOf (some 27) = some (false, some 24) := by decide
  have atSource : arrayRefs.pointerOf (some 26) = some (false, some 23) := by decide
  rw [atTarget] at target
  rw [atSource] at source
  cases target
  cases source
  have notStr : ¬(some 23 = arrayRefs.typeStr ∧ arrayRefs.typeIsU8Slice (some 24) false = true) := by decide
  have notFmt : arrayRefs.typeIsFmtValue (some 24) = false := by decide
  have slice : arrayRefs.kindOf (some 24) = .SLICE := by decide
  have notPtr : arrayRefs.kindOf (arrayRefs.resolveAliasBaseType (some 23)) ≠ .PTR := by decide
  simp only [notStr, NoConversion, notFmt, slice, Bool.false_eq_true, if_false]
  exact notPtr

end HopHop.TypeTable
