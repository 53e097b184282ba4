import HopHop.TypeResolvedParts

namespace HopHop

open TypeTable TypeReader

variable {scope : TypeScope} {values : TypeValues} {start : TypeTable} {working : List Nat}
variable {resolve : Int → AstNode → NodeList → TypeReader → Except Diag (TypeId × TypeReader)}

theorem take_set_succ {α : Type} {l : List α} {k : Nat} (free : k < l.length) (x : α) :
    (l.set k x).take (k + 1) = l.take k ++ [x] := by
  have atK : (l.set k x)[k]? = some x := by simp [free]
  rw [List.take_add_one, atK, List.take_set_of_le (Nat.le_refl k)]
  rfl

/-- A type of the table goes into a slot of the buffer. -/
theorem ReadsTo.setParam {r r' : TypeReader} (reads : ReadsTo working r r') {id : TypeId} (holds : r'.table.Holds id)
    (k : Nat) : ReadsTo working r (r'.setParam k id) where
  good := reads.good
  grows := reads.grows
  marks := reads.marks
  types_length := by simp [TypeReader.setParam, reads.types_length]
  flags_length := reads.flags_length
  kept := by
    intro i old atI oldHolds
    obtain ⟨id', atI', holds'⟩ := reads.kept i old atI oldHolds
    by_cases same : k = i
    · subst same
      exact ⟨id, by simp [TypeReader.setParam, (List.getElem?_eq_some_iff.mp atI').1], holds⟩
    · exact ⟨id', by simp [TypeReader.setParam, same, atI'], holds'⟩

theorem ReadsTo.setFlag {r r' : TypeReader} (reads : ReadsTo working r r') (k : Nat) (isConst : Bool) :
    ReadsTo working r (r'.setFlag k isConst) :=
  ⟨reads.good, reads.grows, reads.marks, reads.types_length, by simp [TypeReader.setFlag, reads.flags_length], reads.kept⟩

theorem ReadsTo.restore {r r' : TypeReader} (reads : ReadsTo working r r') (k : Nat) :
    ReadsTo working r (r'.restore r k) where
  good := reads.good
  grows := reads.grows
  marks := reads.marks
  types_length := by
    simp only [TypeReader.restore, List.length_append, List.length_take, List.length_drop, reads.types_length]
    omega
  flags_length := by
    simp only [TypeReader.restore, List.length_append, List.length_take, List.length_drop, reads.flags_length]
    omega
  kept := by
    intro i id atI holds
    have below := (List.getElem?_eq_some_iff.mp atI).1
    by_cases saved : i < k
    · refine ⟨id, ?_, reads.grows.holds holds⟩
      rw [TypeReader.restore, List.getElem?_append_left (by rw [List.length_take]; omega), List.getElem?_take,
        if_pos saved, atI]
    · obtain ⟨id', atI', holds'⟩ := reads.kept i id atI holds
      refine ⟨id', ?_, holds'⟩
      rw [TypeReader.restore, List.getElem?_append_right (by rw [List.length_take]; omega), List.getElem?_drop,
        List.length_take, ← atI']
      congr 1
      omega

theorem take_restore {α : Type} {saved now : List α} (length : now.length = saved.length) (k : Nat) :
    (saved.take k ++ now.drop k).take k = saved.take k := by
  rcases Nat.lt_or_ge saved.length k with beyond | within
  · rw [List.drop_eq_nil_of_le (by omega), List.append_nil, List.take_take, Nat.min_self]
  · rw [List.take_append_of_le_length (by rw [List.length_take]; omega), List.take_take, Nat.min_self]

/-- The parameters that have been read come back as they were saved. -/
theorem ReadsTo.params_restore {r r' : TypeReader} (reads : ReadsTo working r r') (k : Nat) :
    (r'.restore r k).params k = r.params k := by
  simp only [TypeReader.params, TypeReader.restore, take_restore reads.types_length, take_restore reads.flags_length]

theorem Untouched.restore {r r' : TypeReader} (same : Untouched r r') (k : Nat) : Untouched r (r'.restore r k) := by
  simp only [Untouched, TypeReader.restore, same.1, same.2, List.take_append_drop, and_self]

theorem Untouched.params {r r' : TypeReader} (same : Untouched r r') (k : Nat) : r'.params k = r.params k := by
  simp only [TypeReader.params, same.1, same.2]

/-- One more parameter has been read. -/
theorem params_succ {r : TypeReader} {k : Nat} (free : k < r.scratchParamTypes.length)
    (lengths : r.scratchParamFlags.length = r.scratchParamTypes.length) (id : TypeId) (isConst : Bool) :
    ((r.setParam k id).setFlag k isConst).params (k + 1) = r.params k ++ [⟨id, isConst⟩] := by
  simp only [TypeReader.params, TypeReader.setParam, TypeReader.setFlag, take_set_succ free,
    take_set_succ (lengths ▸ free)]
  rw [List.zipWith_append (by rw [List.length_take, List.length_take, lengths])]
  rfl

/-- The parameters that have been read still name types of the table. -/
theorem ReadsTo.holds_params {r r' : TypeReader} (reads : ReadsTo working r r') {k : Nat}
    (holds : ∀ p ∈ r.params k, r.table.Holds p.typeId) (lengths : r.scratchParamFlags.length = r.scratchParamTypes.length)
    : ∀ p ∈ r'.params k, r'.table.Holds p.typeId := by
  intro p member
  obtain ⟨i, atI⟩ := List.getElem?_of_mem member
  simp only [TypeReader.params, List.getElem?_zipWith, List.getElem?_take] at atI
  by_cases before : i < k
  · simp only [before, if_true] at atI
    cases type' : r'.scratchParamTypes[i]? with
    | none => simp [type'] at atI
    | some id' =>
      cases flag' : r'.scratchParamFlags[i]? with
      | none => simp [type', flag'] at atI
      | some isConst' =>
        simp only [type', flag', Option.some.injEq] at atI
        subst atI
        have below : i < r.scratchParamTypes.length := by
          rw [← reads.types_length]
          exact (List.getElem?_eq_some_iff.mp type').1
        have type := List.getElem?_eq_getElem below
        have flag := List.getElem?_eq_getElem (lengths ▸ below)
        have old : (⟨r.scratchParamTypes[i], r.scratchParamFlags[i]⟩ : FuncParam) ∈ r.params k := by
          refine List.mem_of_getElem? (i := i) ?_
          simp only [TypeReader.params, List.getElem?_zipWith, List.getElem?_take, before, if_true, type, flag]
        obtain ⟨id, atI, holds'⟩ := reads.kept i _ type (holds _ old)
        rw [type'] at atI
        cases atI
        exact holds'
  · simp [before] at atI

/-- What a type node writes, as a child of another. -/
theorem parts_cons (src : List UInt8) (id : Int) (n : AstNode) (kids rest : NodeList) :
    (NodeList.cons id n kids rest).parts src values =
      ⟨n, kids, n.written src values kids⟩ :: rest.parts src values := rfl

/-- What the loop over the elements of a tuple comes to. -/
structure ElemsRead (scope : TypeScope) (values : TypeValues) (working : List Nat) (kids : NodeList) (elemCount : Nat)
    (r : TypeReader) (count : Nat) (r' : TypeReader) : Prop where
  reads : ReadsTo working r r'
  counted : count = elemCount + kids.length
  holds : ∀ id ∈ r'.scratchParamTypes.take count, r'.table.Holds id
  denotes : kids.Forall (PlainNode scope r.table) →
    kids.EachLater (QuietType scope r.table) (fun _ => true) (0 < elemCount) →
    ∃ ts ids, (kids.parts r.table.src values).mapM WrittenPart.term = some ts ∧
      DenoteAll scope values r'.table ts ids ∧
      r'.scratchParamTypes.take count = r.scratchParamTypes.take elemCount ++ ids

theorem resolveTupleElems_spec (lawful : scope.Lawful values start) (resolver : Resolver scope values start resolve) :
    ∀ (kids : NodeList) {elemCount count : Nat} {r r' : TypeReader}, Ready scope start working r →
      (∀ id ∈ r.scratchParamTypes.take elemCount, r.table.Holds id) →
      resolveTupleElems resolve scope kids elemCount r = .ok (count, r') →
      ElemsRead scope values working kids elemCount r count r'
  | .nil, elemCount, count, r, r', ready, holds, result => by
    cases result
    exact ⟨.refl ready.good, rfl, holds, fun _ _ => ⟨[], [], rfl, rfl, (List.append_nil _).symm⟩⟩
  | .cons childId child childKids rest, elemCount, count, r, r', ready, holds, result => by
    simp only [resolveTupleElems] at result
    split at result
    · cases result
    rename_i free
    obtain ⟨⟨elemType, r₁⟩, here, more⟩ := ok_of_bind result
    simp only at more
    split at more
    · cases more
    have resolved := resolver ready here
    have reads₂ := resolved.reads.setParam resolved.holds elemCount
    have ready₂ := ready.after reads₂
    have free₁ : elemCount < r₁.scratchParamTypes.length := by
      rw [resolved.reads.types_length]
      omega
    have taken := take_set_succ free₁ elemType
    have holds₂ : ∀ id ∈ (r₁.setParam elemCount elemType).scratchParamTypes.take (elemCount + 1),
        (r₁.setParam elemCount elemType).table.Holds id := by
      intro id member
      rw [TypeReader.setParam, taken] at member
      rcases List.mem_append.mp member with old | new
      · obtain ⟨i, atI⟩ := List.getElem?_of_mem old
        rw [List.getElem?_take] at atI
        split at atI
        · rename_i before
          have below : i < r.scratchParamTypes.length := by omega
          have oldAt := List.getElem?_eq_getElem below
          have oldMember : r.scratchParamTypes[i] ∈ r.scratchParamTypes.take elemCount := by
            refine List.mem_of_getElem? (i := i) ?_
            rw [List.getElem?_take, if_pos before, oldAt]
          obtain ⟨id', atI', holds'⟩ := resolved.reads.kept i _ oldAt (holds _ oldMember)
          rw [atI] at atI'
          cases atI'
          exact holds'
        · cases atI
      · rw [List.mem_singleton.mp new]
        exact resolved.holds
    have tail := resolveTupleElems_spec lawful resolver rest ready₂ holds₂ more
    refine ⟨reads₂.trans tail.reads, ?_, tail.holds, ?_⟩
    · rw [tail.counted, NodeList.length]
      omega
    · intro plain later
      obtain ⟨t, written, denotes⟩ := resolved.denotes ⟨plain.1, plain.2.1⟩
      have later' := later.2.mono fun _ _ quiet => quiet.after lawful ready reads₂
      have plain' := plain.2.2.mono fun _ _ node => node.after lawful ready reads₂
      have isLater : (decide (0 < elemCount) || true) = decide (0 < elemCount + 1) := by simp
      obtain ⟨ts, ids, writtenAll, all, isTaken⟩ := tail.denotes plain' (isLater ▸ later')
      rw [reads₂.grows.src] at writtenAll
      refine ⟨t :: ts, elemType :: ids, ?_, ?_, ?_⟩
      · simp only [parts_cons, List.mapM_cons, written, writtenAll]
        rfl
      · exact ⟨elemType, ids, rfl, ready₂.denotes_after lawful tail.reads denotes, all⟩
      · have untouched : r₁.scratchParamTypes.take elemCount = r.scratchParamTypes.take elemCount := by
          by_cases first : 0 < elemCount
          · obtain ⟨depth, quiet⟩ := later.1 (decide_eq_true first)
            rw [(resolved.quiet depth quiet).1.1]
          · rw [show elemCount = 0 by omega, List.take_zero, List.take_zero]
        rw [isTaken, TypeReader.setParam, taken, untouched, List.append_assoc]
        rfl

theorem resolveTuple_spec (lawful : scope.Lawful values start) (resolver : Resolver scope values start resolve)
    {n : AstNode} {kids : NodeList} {r r' : TypeReader} {id : TypeId} (ready : Ready scope start working r)
    (isTuple : n.kind = .TYPE_TUPLE) (result : resolveTuple resolve scope n kids r = .ok (id, r')) :
    Resolved scope values working n kids r id r' := by
  obtain ⟨⟨elemCount, r₁⟩, elems, made⟩ := ok_of_bind result
  simp only at made
  split at made
  · cases made
  have nothing : ∀ id ∈ r.scratchParamTypes.take 0, r.table.Holds id := by
    intro id member
    rw [List.take_zero] at member
    cases member
  have read := resolveTupleElems_spec lawful resolver kids ready nothing elems
  have ready₁ := ready.after read.reads
  obtain ⟨reads, shape, -⟩ := (internTupleType_interns ready₁.good read.holds _ _).read made
  refine ⟨read.reads.trans reads, .of_shape shape, ?_, ?_⟩
  · intro depth quiet
    have here : QuietNodeWith scope r.table (QuietAlias scope r.table depth) n kids := quiet.1
    simp only [QuietNodeWith, isTuple] at here
  · intro plain
    have later := plain.1
    simp only [PlainNode, isTuple] at later
    obtain ⟨ts, ids, written, all, isTaken⟩ := read.denotes plain.2 later
    rw [List.take_zero, List.nil_append] at isTaken
    rw [isTaken] at shape
    have lengths : (ids.map fun _ => ()) = ts.map fun _ => () := by
      have := all.length
      simp [List.map_const', this]
    refine ⟨.node (.made (.tuple (ts.map fun _ => ()))) ts, ?_, ?_⟩
    · rw [AstNode.written, WrittenPart.combine, isTuple]
      simp only [written, Option.map_some]
    · rw [← lengths]
      exact denotes_made (s := .tuple ids) shape (ready₁.denoteAll_after lawful reads all)

end HopHop
