import HopHop.TypeDenotes
import HopHop.TypeSubstGood

namespace HopHop.TypeTable

variable {c c' : TypeTable} {working : List Nat}

/-- The aliases that are being resolved are the same. -/
def Marks (c c' : TypeTable) : Prop :=
  ∀ (i : Nat) (t : TCType), c.types[i]? = some t →
    ∃ t', c'.types[i]? = some t' ∧ t'.flags.aliasResolving = t.flags.aliasResolving

theorem Marks.refl (c : TypeTable) : Marks c c := fun _ t atI => ⟨t, atI, rfl⟩

theorem Marks.trans {c'' : TypeTable} (first : Marks c c') (second : Marks c' c'') : Marks c c'' := by
  intro i t atI
  obtain ⟨t', atI', same⟩ := first i t atI
  obtain ⟨t'', atI'', same'⟩ := second i t' atI'
  exact ⟨t'', atI'', same'.trans same⟩

theorem Marks.of_extends {c c' : TypeTable} (pre : c.types <+: c'.types) : Marks c c' := by
  intro i t atI
  obtain ⟨more, same⟩ := pre
  exact ⟨t, by rw [← same, List.getElem?_append_left (List.getElem?_eq_some_iff.mp atI).1, atI], rfl⟩

/-- A step that gives the entry of a structural type. -/
structure Interns (working : List Nat) (c : TypeTable) (s : TypeShape TypeId) (made : TypeId × TypeTable) : Prop where
  good : Good working made.2
  grows : Grows c made.2
  marks : Marks c made.2
  shape : ∀ i, made.1 = some i → made.2.shape made.1 = some s

theorem Makes.interns {n : Nat} {made : TypeId × TypeTable} {s : TypeShape TypeId} (makes : Makes working c n made)
    (marks : Marks c made.2) (shape : ∀ i, made.1 = some i → made.2.shape made.1 = some s) :
    Interns working c s made :=
  ⟨makes.good, makes.grows, marks, shape⟩

theorem addType_extends (c : TypeTable) (t : TCType) (errStart errEnd : Nat) :
    c.types <+: (c.addType t errStart errEnd).2.types := by
  unfold addType
  split
  · exact List.prefix_refl _
  · exact List.prefix_append _ _

theorem addType_shape {t : TCType} {s : TypeShape TypeId} (isShape : c.shapeOf t = some s) (errStart errEnd : Nat)
    (i : Nat) (made : (c.addType t errStart errEnd).1 = some i) :
    (c.addType t errStart errEnd).2.shape (c.addType t errStart errEnd).1 = some s := by
  unfold addType at made ⊢
  split at made
  · cases made
  · rename_i room
    rw [if_neg room]
    have atNew : TypeTable.entry { c with types := c.types ++ [t] } (some c.types.length) = some t := by simp [entry]
    rw [shape_eq atNew]
    exact isShape

theorem shape_of_found {same : TCType → Bool} {s : TypeShape TypeId} {i : Nat}
    (only : ∀ u ∈ c.types, same u = true → c.shapeOf u = some s) (found : c.types.findIdx? same = some i) :
    c.shape (some i) = some s := by
  obtain ⟨below, isSame, -⟩ := List.findIdx?_eq_some_iff_getElem.mp found
  have atI : c.entry (some i) = some c.types[i] := List.getElem?_eq_getElem below
  rw [shape_eq atI]
  exact only _ (List.getElem_mem below) isSame

/-- What is found or added is the type that is searched for. -/
theorem internType_interns {same : TCType → Bool} {t : TCType} {s : TypeShape TypeId} {n errStart errEnd : Nat}
    (makes : Makes working c n (c.internType same t errStart errEnd)) (isShape : c.shapeOf t = some s)
    (only : ∀ u ∈ c.types, same u = true → c.shapeOf u = some s) :
    Interns working c s (c.internType same t errStart errEnd) := by
  refine makes.interns ?_ ?_
  · unfold internType
    split
    · exact .refl c
    · exact .of_extends (addType_extends c t errStart errEnd)
  · intro i made
    unfold internType at made ⊢
    split at made
    · rename_i found
      exact shape_of_found only found
    · exact addType_shape isShape errStart errEnd i made

theorem internPtrType_interns (good : Good working c) {baseType : TypeId} (holds : c.Holds baseType)
    (errStart errEnd : Nat) : Interns working c (.ptr baseType) (c.internPtrType baseType errStart errEnd) := by
  refine internType_interns (internPtrType_makes good holds errStart errEnd) rfl ?_
  intro u _ same
  simp only [decide_eq_true_eq] at same
  simp [shapeOf, same]

theorem internRefType_interns (good : Good working c) {baseType : TypeId} (holds : c.Holds baseType) (isMutable : Bool)
    (errStart errEnd : Nat) :
    Interns working c (.ref baseType isMutable) (c.internRefType baseType isMutable errStart errEnd) := by
  refine internType_interns (internRefType_makes good holds isMutable errStart errEnd) rfl ?_
  intro u _ same
  simp only [decide_eq_true_eq] at same
  obtain ⟨kind, base, mutable⟩ := same
  simp only [TCType.isMutable, kind, reduceCtorEq, if_false] at mutable
  simp [shapeOf, kind, base, mutable]

theorem internArrayType_interns (good : Good working c) {baseType : TypeId} (holds : c.Holds baseType)
    (arrayLen : UInt32) (errStart errEnd : Nat) :
    Interns working c (.array baseType arrayLen) (c.internArrayType baseType arrayLen errStart errEnd) := by
  refine internType_interns (internArrayType_makes good holds arrayLen errStart errEnd) rfl ?_
  intro u _ same
  simp only [decide_eq_true_eq] at same
  simp [shapeOf, same]

theorem internSliceType_interns (good : Good working c) {baseType : TypeId} (holds : c.Holds baseType)
    (isMutable : Bool) (errStart errEnd : Nat) :
    Interns working c (.slice baseType isMutable) (c.internSliceType baseType isMutable errStart errEnd) := by
  refine internType_interns (internSliceType_makes good holds isMutable errStart errEnd) rfl ?_
  intro u _ same
  simp only [decide_eq_true_eq] at same
  obtain ⟨kind, base, mutable⟩ := same
  simp only [TCType.isMutable, kind, reduceCtorEq, if_false] at mutable
  simp [shapeOf, kind, base, mutable]

theorem internOptionalType_interns (good : Good working c) {baseType : TypeId} (holds : c.Holds baseType)
    (errStart errEnd : Nat) :
    Interns working c (.optional baseType) (c.internOptionalType baseType errStart errEnd) := by
  refine internType_interns (internOptionalType_makes good holds errStart errEnd) rfl ?_
  intro u _ same
  simp only [decide_eq_true_eq] at same
  simp [shapeOf, same]

theorem addTypeWithParams_extends (c : TypeTable) (t : TCType) (params : List FuncParam) (errStart errEnd : Nat) :
    c.types <+: (c.addTypeWithParams t params errStart errEnd).2.types := by
  unfold addTypeWithParams
  split
  · exact List.prefix_refl _
  · exact addType_extends { c with funcParams := c.funcParams ++ params }
      { t with fieldStart := c.funcParams.length, fieldCount := params.length } errStart errEnd

theorem addTypeWithParams_shape {t : TCType} {params : List FuncParam} {s : TypeShape TypeId}
    (isShape : TypeTable.shapeOf { c with funcParams := c.funcParams ++ params }
      { t with fieldStart := c.funcParams.length, fieldCount := params.length } = some s) (errStart errEnd : Nat)
    (i : Nat) (made : (c.addTypeWithParams t params errStart errEnd).1 = some i) :
    (c.addTypeWithParams t params errStart errEnd).2.shape (c.addTypeWithParams t params errStart errEnd).1 =
      some s := by
  unfold addTypeWithParams at made ⊢
  split at made
  · cases made
  · rename_i room
    rw [if_neg room]
    exact addType_shape isShape errStart errEnd i made

theorem internTupleType_interns (good : Good working c) {elemTypes : List TypeId}
    (holds : ∀ p ∈ elemTypes, c.Holds p) (errStart errEnd : Nat) :
    Interns working c (.tuple elemTypes) (c.internTupleType elemTypes errStart errEnd) := by
  by_cases length : 2 ≤ elemTypes.length ∧ elemTypes.length ≤ 0xFFFF
  · refine (internTupleType_makes good holds length errStart errEnd).interns ?_ ?_
    · unfold internTupleType
      rw [if_neg (by omega)]
      split
      · exact .refl c
      · exact .of_extends (addTypeWithParams_extends _ _ _ _ _)
    · intro i made
      unfold internTupleType at made ⊢
      rw [if_neg (by omega)] at made ⊢
      split at made
      · rename_i found
        refine shape_of_found ?_ found
        intro u _ same
        simp only [elemsMatch, decide_eq_true_eq] at same
        simp [shapeOf, same]
      · refine addTypeWithParams_shape ?_ errStart errEnd i made
        have components := componentsOf_append c (TCType.blank .TUPLE) (elemParams elemTypes)
        simp only [TypeTable.shapeOf, TCType.blank] at components ⊢
        rw [components, elemParams_typeIds]
  · have failed : c.internTupleType elemTypes errStart errEnd = c.failSpan .EXPECTED_TYPE errStart errEnd := by
      unfold internTupleType
      rw [if_pos (by omega)]
    rw [failed]
    exact ⟨good.failSpan _ _ _, .failSpan _ _ _ _, fun _ t atI => ⟨t, atI, rfl⟩, fun _ made => by cases made⟩

theorem internFunctionType_interns (good : Good working c) {returnType : TypeId} {params : List FuncParam}
    (result : c.Holds returnType) (holds : ∀ p ∈ params, c.Holds p.typeId) (isVariadic : Bool) (errStart errEnd : Nat) :
    Interns working c (.function returnType (params.map fun p => (p.typeId, p.isConst)) isVariadic)
      (c.internFunctionType returnType params isVariadic none errStart errEnd) := by
  by_cases length : params.length ≤ 0xFFFF
  · have makes := internFunctionType_makes good result holds length isVariadic none errStart errEnd
    have unnoted : ∀ i, c.types.modify i (TCType.noteFunction · none) = c.types := by
      intro i
      have same : (TCType.noteFunction · none) = id := by
        funext t
        simp [TCType.noteFunction]
      rw [same, List.modify_id]
    refine makes.interns ?_ ?_
    · unfold internFunctionType
      rw [if_neg (by omega)]
      split
      · refine .of_extends ?_
        exact ⟨[], (List.append_nil _).trans (unnoted _).symm⟩
      · exact .of_extends (addTypeWithParams_extends _ _ _ _ _)
    · intro i made
      unfold internFunctionType at made ⊢
      rw [if_neg (by omega)] at made ⊢
      split at made
      · rename_i found
        simp only [unnoted]
        refine shape_of_found ?_ found
        intro u _ same
        simp only [functionTypeMatchesSignature, decide_eq_true_eq] at same
        obtain ⟨kind, base, -, variadic, components⟩ := same
        simp [shapeOf, kind, base, variadic, components]
      · refine addTypeWithParams_shape ?_ errStart errEnd i made
        have components := componentsOf_append c
          { TCType.blank .FUNCTION with
            baseType := returnType, flags := { TCTypeFlags.none with functionVariadic := isVariadic } } params
        simp only [TypeTable.shapeOf, TCType.blank] at components ⊢
        rw [components]
  · have failed : c.internFunctionType returnType params isVariadic none errStart errEnd =
        c.failSpan .ARENA_OOM errStart errEnd := by
      unfold internFunctionType
      rw [if_pos (by omega)]
    rw [failed]
    exact ⟨good.failSpan _ _ _, .failSpan _ _ _ _, fun _ t atI => ⟨t, atI, rfl⟩, fun _ made => by cases made⟩

/-- The shape of an anonymous aggregate. -/
def anonShape (c : TypeTable) (isUnion : Bool) (fields : List TCField) : TypeShape TypeId :=
  if isUnion then .anonUnion (c.signature fields) else .anonStruct (c.signature fields)

theorem internAnonAggregateType_interns (good : Good working c) (isUnion : Bool) {fields : List AnonFieldSig}
    (holds : ∀ f ∈ fields, c.Holds f.typeId) (declNode : Int) (errStart errEnd : Nat) :
    Interns working c (c.anonShape isUnion (fields.map AnonFieldSig.toField))
      (c.internAnonAggregateType isUnion fields declNode errStart errEnd) := by
  have good' := internAnonAggregateType_good good isUnion holds declNode errStart errEnd
  have failed : ∀ {code : DiagCode}, Good working (c.failSpan code errStart errEnd).2 →
      Interns working c (c.anonShape isUnion (fields.map AnonFieldSig.toField)) (c.failSpan code errStart errEnd) :=
    fun good => ⟨good, .failSpan _ _ _ _, fun _ t atI => ⟨t, atI, rfl⟩, fun _ made => by cases made⟩
  simp only [internAnonAggregateType] at good' ⊢
  split
  · rename_i tooMany
    rw [if_pos tooMany] at good'
    exact failed good'
  rename_i few
  rw [if_neg few] at good'
  split
  · rename_i found
    refine ⟨good, .refl c, .refl c, fun _ _ => shape_of_found ?_ found⟩
    intro u _ same
    simp only [decide_eq_true_eq] at same
    obtain ⟨kind, -, fieldsSame⟩ := same
    rw [anonKind_shape isUnion u kind, fieldsSame, anonShape]
  rename_i missed
  simp only [missed] at good'
  split
  · rename_i full
    rw [if_pos full] at good'
    exact failed good'
  rename_i space
  rw [if_neg space] at good'
  unfold addType at good' ⊢
  split
  · rename_i full
    split at full
    · rename_i noRoom
      cases full
      rw [if_pos noRoom] at good'
      exact failed good'
    · cases full
  · rename_i added
    split at added
    · cases added
    rename_i room
    cases added
    rw [if_neg room] at good'
    have grows : Grows c { c with
        types := c.types ++ [{ TCType.blank (anonKind isUnion) with
          declNode, fieldStart := c.fields.length, fieldCount := fields.length }],
        fields := c.fields ++ fields.map AnonFieldSig.toField } :=
      (Grows.push c _).trans (Grows.fields_append _ _)
    refine ⟨good', grows, .of_extends (List.prefix_append _ _), fun _ _ => ?_⟩
    have content := fieldsOf_append { c with
        types := c.types ++ [{ TCType.blank (anonKind isUnion) with
          declNode, fieldStart := c.fields.length, fieldCount := fields.length }] }
      { TCType.blank (anonKind isUnion) with declNode } (fields.map AnonFieldSig.toField)
    rw [List.length_map] at content
    have atNew : TypeTable.entry { c with
        types := c.types ++ [{ TCType.blank (anonKind isUnion) with
          declNode, fieldStart := c.fields.length, fieldCount := fields.length }],
        fields := c.fields ++ fields.map AnonFieldSig.toField } (some c.types.length) =
        some { TCType.blank (anonKind isUnion) with
          declNode, fieldStart := c.fields.length, fieldCount := fields.length } := by simp [entry]
    rw [shape_eq atNew, anonKind_shape isUnion _ rfl, content]
    rfl

end HopHop.TypeTable
