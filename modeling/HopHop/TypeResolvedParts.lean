import HopHop.TypeResolved

namespace HopHop

open TypeTable TypeReader

variable {scope : TypeScope} {values : TypeValues} {start : TypeTable} {working : List Nat}
variable {resolve : Int → AstNode → NodeList → TypeReader → Except Diag (TypeId × TypeReader)}

theorem pointer_shape {c : TypeTable} {id : TypeId} {t : TCType} (atId : c.entry id = some t) (isSlice : t.kind = .SLICE) :
    c.shape id = some (.slice t.baseType t.isMutable) := by
  simp only [shape_eq atId, TypeTable.shapeOf, isSlice, TCType.isMutable, reduceCtorEq, if_false]

/-- What stands under a pointer denotes the type with the rights that go with it. -/
theorem TypeTable.Denotes.underPointer {c : TypeTable} {isPtr : Bool} {t : TypeTerm} {base id : TypeId}
    (denotes : Denotes scope values c t base) (rights : c.WithRights isPtr base id) (holds : c.Holds id) :
    Denotes scope values c (t.underPointer isPtr) id := by
  have wrapped : Denotes scope values c (.node (.pointee isPtr) [t]) id :=
    ⟨holds, [base], denoteAll_one denotes, base, rfl, rights⟩
  obtain ⟨label, elems⟩ := t
  cases label with
  | made head =>
    cases head with
    | slice base' mutable =>
      obtain ⟨-, ids, all, s, shape, isHead, parts⟩ := denotes
      cases s <;> simp only [TypeShape.head, TypeShape.map, reduceCtorEq] at isHead
      rename_i elem mutable'
      simp only [WithRights, shape] at rights
      refine ⟨holds, ids, all, _, rights, rfl, ?_⟩
      rw [← parts]
      rfl
    | _ => exact wrapped
  | _ => exact wrapped

/-- What `resolvePointee` comes to. -/
structure ResolvedPointee (scope : TypeScope) (values : TypeValues) (working : List Nat) (isPtr : Bool) (n : AstNode)
    (kids : NodeList) (r : TypeReader) (id : TypeId) (r' : TypeReader) : Prop where
  reads : ReadsTo working r r'
  holds : r'.table.Holds id
  quiet : ∀ depth, Everywhere (QuietNode scope r.table depth) n kids → Untouched r r'
  denotes : PlainType scope r.table n kids → ∃ t, n.written r.table.src values kids = some t ∧
    Denotes scope values r'.table (t.underPointer isPtr) id

theorem Everywhere.head {p : AstNode → NodeList → Prop} {n child : AstNode} {childId : Int} {childKids rest : NodeList}
    (all : Everywhere p n (.cons childId child childKids rest)) : Everywhere p child childKids :=
  ⟨all.2.1, all.2.2.1⟩

theorem resolvePointee_spec (lawful : scope.Lawful values start) (resolver : Resolver scope values start resolve)
    {n child : AstNode} {childId : Int} {childKids : NodeList} {r r' : TypeReader} {id : TypeId}
    (ready : Ready scope start working r)
    (result : resolvePointee resolve n child childId childKids r = .ok (id, r')) :
    ResolvedPointee scope values working (n.kind = .TYPE_PTR) child childKids r id r' := by
  unfold resolvePointee at result
  simp only at result
  split at result
  · rename_i isSlice
    split at result
    · cases result
    rename_i elemId elem elemKids rest
    obtain ⟨⟨elemType, r₁⟩, here, result⟩ := ok_of_bind result
    have resolved := resolver ready here
    have ready₁ := ready.after resolved.reads
    obtain ⟨reads, shape, untouched⟩ := (internSliceType_interns ready₁.good resolved.holds _ _ _).read result
    refine ⟨resolved.reads.trans reads, .of_shape shape, ?_, ?_⟩
    · intro depth quiet
      exact (resolved.quiet depth quiet.head).1.trans untouched
    · intro plain
      obtain ⟨t, written, denotes⟩ := resolved.denotes plain.head
      have made : Denotes scope values r'.table (.node (.made (.slice () (n.kind = .TYPE_PTR))) [t]) id :=
        denotes_made shape (denoteAll_one (ready₁.denotes_after lawful reads denotes))
      rw [AstNode.written] at written
      rcases isSlice with kind | kind
      · refine ⟨.node (.made (.slice () false)) [t], ?_, made⟩
        rw [AstNode.written, WrittenPart.combine, kind]
        simp only [NodeList.parts, List.head?_cons, Option.bind_some, written, Option.map_some]
      · refine ⟨.node (.made (.slice () true)) [t], ?_, made⟩
        rw [AstNode.written, WrittenPart.combine, kind]
        simp only [NodeList.parts, List.head?_cons, Option.bind_some, written, Option.map_some]
  · obtain ⟨⟨baseType, r₁⟩, here, result⟩ := ok_of_bind result
    have resolved := resolver ready here
    have ready₁ := ready.after resolved.reads
    -- the base goes on as it is unless it is a slice with other rights
    have same : r₁.table.WithRights (n.kind = .TYPE_PTR) baseType baseType →
        ResolvedPointee scope values working (n.kind = .TYPE_PTR) child childKids r baseType r₁ := by
      intro rights
      refine ⟨resolved.reads, resolved.holds, fun depth quiet => (resolved.quiet depth quiet).1, fun plain => ?_⟩
      obtain ⟨t, written, denotes⟩ := resolved.denotes plain
      exact ⟨t, written, denotes.underPointer rights resolved.holds⟩
    simp only at result
    split at result
    · rename_i missing
      obtain ⟨t, atBase⟩ := resolved.holds.entry
      rw [missing] at atBase
      cases atBase
    · rename_i t atBase
      split at result
      · rename_i other
        have isShape := pointer_shape atBase other.1
        have baseHolds : r₁.table.Holds t.baseType := by
          obtain ⟨i, -, atI⟩ := Option.bind_eq_some_iff.mp atBase
          rw [shape_eq atBase] at isShape
          exact (ready₁.good.types.closed t (List.mem_of_getElem? atI)).parts _ isShape _ List.mem_cons_self
        obtain ⟨reads, shape, untouched⟩ := (internSliceType_interns ready₁.good baseHolds _ _ _).read result
        refine ⟨resolved.reads.trans reads, .of_shape shape, ?_, ?_⟩
        · intro depth quiet
          exact (resolved.quiet depth quiet).1.trans untouched
        · intro plain
          obtain ⟨u, written, denotes⟩ := resolved.denotes plain
          refine ⟨u, written, (ready₁.denotes_after lawful reads denotes).underPointer ?_ (.of_shape shape)⟩
          simp only [WithRights, reads.grows.shape ready₁.good.types resolved.holds, isShape]
          exact shape
      · rename_i asIs
        cases result
        refine same ?_
        by_cases isSlice : t.kind = .SLICE
        · have isShape := pointer_shape atBase isSlice
          have mutable : t.isMutable = decide (n.kind = .TYPE_PTR) := by
            by_contra differs
            refine asIs ⟨isSlice, fun same => differs ?_⟩
            simp only [← same, Bool.decide_eq_true]
          simp only [WithRights, isShape, mutable]
        · have notSlice : ∀ (elem : TypeId) (mutable : Bool), r'.table.shape id ≠ some (.slice elem mutable) := by
            intro elem mutable isShape
            rw [shape_eq atBase] at isShape
            exact isSlice (shapeOf_kind isShape).1
          unfold WithRights
          split
          · rename_i elem mutable isShape
            exact absurd isShape (notSlice elem mutable)
          · rfl

theorem resolvePointer_spec (lawful : scope.Lawful values start) (resolver : Resolver scope values start resolve)
    {n : AstNode} {kids : NodeList} {r r' : TypeReader} {id : TypeId} (ready : Ready scope start working r)
    (isPointer : n.kind = .TYPE_PTR ∨ n.kind = .TYPE_REF ∨ n.kind = .TYPE_MUTREF)
    (result : resolvePointer resolve n kids r = .ok (id, r')) : Resolved scope values working n kids r id r' := by
  unfold resolvePointer at result
  split at result
  · cases result
  rename_i childId child childKids rest
  obtain ⟨⟨baseType, r₁⟩, here, made⟩ := ok_of_bind result
  have pointee := resolvePointee_spec lawful resolver ready here
  have ready₁ := ready.after pointee.reads
  have finish : ∀ {s : TypeShape TypeId} {c : TypeId × TypeTable}, Interns working r₁.table s c →
      r₁.interned c = .ok (id, r') → s.parts = [baseType] →
      (n.written r.table.src values (.cons childId child childKids rest) =
        (child.written r.table.src values childKids).map (fun t => .node (.made s.head) [t.underPointer (n.kind = .TYPE_PTR)])) →
      Resolved scope values working n (.cons childId child childKids rest) r id r' := by
    intro s c interns made isParts isWritten
    obtain ⟨reads, shape, untouched⟩ := interns.read made
    refine ⟨pointee.reads.trans reads, .of_shape shape, ?_, ?_⟩
    · intro depth quiet
      exact ⟨(pointee.quiet depth quiet.head).trans untouched, .settled (.of_shape shape) depth⟩
    intro plain
    obtain ⟨t, written, denotes⟩ := pointee.denotes plain.head
    refine ⟨.node (.made s.head) [t.underPointer (n.kind = .TYPE_PTR)], by rw [isWritten, written]; rfl, ?_⟩
    refine denotes_made shape ?_
    rw [isParts]
    exact denoteAll_one (ready₁.denotes_after lawful reads denotes)
  simp only at made
  split at made
  · rename_i isPtr
    refine finish (internPtrType_interns ready₁.good pointee.holds _ _) made rfl ?_
    rw [AstNode.written, WrittenPart.combine, isPtr]
    rfl
  · rename_i notPtr
    refine finish (internRefType_interns ready₁.good pointee.holds _ _ _) made rfl ?_
    rcases isPointer with isPtr | isRef | isMutRef
    · exact absurd isPtr notPtr
    · rw [AstNode.written, WrittenPart.combine, isRef]
      rfl
    · rw [AstNode.written, WrittenPart.combine, isMutRef]
      rfl

/-- The constructors over the type of the first child. -/
theorem resolveOver_spec (lawful : scope.Lawful values start) {n : AstNode} {kids : NodeList} {r r' : TypeReader}
    {id : TypeId} (ready : Ready scope start working r) (shapeOver : TypeId → TypeShape TypeId)
    (intern : TypeTable → TypeId → TypeId × TypeTable)
    (result : (do
      let (baseType, r) ← resolveFirst resolve kids r
      r.interned (intern r.table baseType)) = .ok (id, r'))
    (resolver : Resolver scope values start resolve) (parts : ∀ base, (shapeOver base).parts = [base])
    {head : TypeShape Unit} (heads : ∀ base, (shapeOver base).head = head)
    (interns : ∀ {c : TypeTable} {base : TypeId}, TypeTable.Good working c → c.Holds base →
      Interns working c (shapeOver base) (intern c base))
    (isWritten : n.written r.table.src values kids =
      ((kids.parts r.table.src values).head?.bind WrittenPart.term).map fun t => .node (.made head) [t]) :
    Resolved scope values working n kids r id r' := by
  obtain ⟨⟨baseType, r₁⟩, here, made⟩ := ok_of_bind result
  unfold resolveFirst at here
  split at here
  · cases here
  rename_i childId child childKids rest
  have resolved := resolver ready here
  have ready₁ := ready.after resolved.reads
  obtain ⟨reads, shape, untouched⟩ := (interns ready₁.good resolved.holds).read made
  refine ⟨resolved.reads.trans reads, .of_shape shape, ?_, ?_⟩
  · intro depth quiet
    exact ⟨(resolved.quiet depth quiet.head).1.trans untouched, .settled (.of_shape shape) depth⟩
  intro plain
  obtain ⟨t, written, denotes⟩ := resolved.denotes plain.head
  rw [AstNode.written] at written
  refine ⟨.node (.made head) [t], ?_, ?_⟩
  · simp only [isWritten, NodeList.parts, List.head?_cons, Option.bind_some, written, Option.map_some]
  · rw [← heads baseType]
    refine denotes_made shape ?_
    rw [parts]
    exact denoteAll_one (ready₁.denotes_after lawful reads denotes)

theorem parseArrayLenFrom_spec : ∀ {digits : List UInt8} {v : Nat} {len : UInt32},
    parseArrayLenFrom (UInt32.ofNat v) digits = some len →
      digits.all (fun ch => 0x30 ≤ ch && ch ≤ 0x39) = true ∧
        len = UInt32.ofNat (digits.foldl (fun v ch => v * 10 + (ch - 0x30).toNat) v)
  | [], v, len, result => by
    cases result
    exact ⟨rfl, rfl⟩
  | ch :: rest, v, len, result => by
    simp only [parseArrayLenFrom] at result
    split at result
    · cases result
    · rename_i isDigit
      simp only [not_or, UInt8.not_lt] at isDigit
      have step : UInt32.ofNat v * 10 + (ch - 0x30).toUInt32 = UInt32.ofNat (v * 10 + (ch - 0x30).toNat) := by
        rw [UInt32.ofNat_add, UInt32.ofNat_mul]
        congr 1
        rw [← UInt8.ofNat_toNat (x := ch - 0x30)]
        simp
      rw [step] at result
      obtain ⟨others, value⟩ := parseArrayLenFrom_spec result
      refine ⟨?_, value⟩
      simp only [List.all_cons, others, Bool.and_true, Bool.and_eq_true, decide_eq_true_eq]
      exact isDigit

/-- An array length that 32 bits hold is the number that is written. -/
theorem parseArrayLen_written {r : TypeReader} {n : AstNode} {len : UInt32}
    (parsed : parseArrayLen r.table n = some len) (fits : decimal (r.table.nameOf n.dataStart n.dataEnd) < 2 ^ 32) :
    WrittenPart.lenOf r.table.src values n [] = some len := by
  unfold parseArrayLen at parsed
  split at parsed
  · cases parsed
  · rename_i notEmpty
    obtain ⟨digits, value⟩ := parseArrayLenFrom_spec (show parseArrayLenFrom (UInt32.ofNat 0) _ = some len from parsed)
    simp only [WrittenPart.lenOf, notEmpty, if_false, WrittenPart.bytesFrom, writtenLen]
    rw [TypeTable.nameOf] at digits fits value
    have both := And.intro digits fits
    refine (if_pos both).trans ?_
    rw [value, decimal]

theorem resolveArrayLen_spec (lawful : scope.Lawful values start) {n : AstNode} {rest : NodeList} {r r' : TypeReader}
    {len : UInt32} (ready : Ready scope start working r) (result : resolveArrayLen scope n rest r = .ok (len, r')) :
    ReadsTo working r r' ∧
      (∀ {q : TypeId → Prop} {childId : Int} {child : AstNode} {childKids : NodeList}, n.kind = .TYPE_ARRAY →
        QuietNodeWith scope r.table q n (.cons childId child childKids rest) → Untouched r r') ∧
      ((rest = .nil → decimal (r.table.nameOf n.dataStart n.dataEnd) < 2 ^ 32) →
        WrittenPart.lenOf r.table.src values n (rest.parts r.table.src values) = some len) := by
  unfold resolveArrayLen at result
  split at result
  · split at result
    · cases result
    · rename_i len' parsed
      cases result
      exact ⟨.refl ready.good, fun _ _ => .refl r, fun fits => parseArrayLen_written parsed (fits rfl)⟩
  · obtain ⟨reads, isLen⟩ := lawful.arrayLen ready result
    refine ⟨reads, ?_, fun _ => ?_⟩
    · intro q childId child childKids isArray quiet
      simp only [QuietNodeWith, isArray] at quiet
      exact quiet _ _ _ result
    · rw [isLen]
      rfl
  · cases result

theorem resolveArray_spec (lawful : scope.Lawful values start) (resolver : Resolver scope values start resolve)
    {n : AstNode} {kids : NodeList} {r r' : TypeReader} {id : TypeId} (ready : Ready scope start working r)
    (isArray : n.kind = .TYPE_ARRAY) (result : resolveArray resolve scope n kids r = .ok (id, r')) :
    Resolved scope values working n kids r id r' := by
  unfold resolveArray at result
  split at result
  · cases result
  rename_i childId child childKids rest
  obtain ⟨⟨arrayLen, r₁⟩, lenRead, made⟩ := ok_of_bind result
  obtain ⟨⟨baseType, r₂⟩, here, made⟩ := ok_of_bind made
  obtain ⟨reads₁, quietLen, isLen⟩ := resolveArrayLen_spec lawful ready lenRead
  have ready₁ := ready.after reads₁
  have resolved := resolver ready₁ here
  have ready₂ := ready₁.after resolved.reads
  obtain ⟨reads₃, shape, untouched⟩ := (internArrayType_interns ready₂.good resolved.holds _ _ _).read made
  refine ⟨reads₁.trans (resolved.reads.trans reads₃), .of_shape shape, ?_, ?_⟩
  · intro depth quiet
    have quiet' : Everywhere (QuietNode scope r₁.table depth) child childKids :=
      quiet.head.mono fun _ _ node => QuietNode.after lawful ready reads₁ node
    exact ⟨(quietLen isArray quiet.1).trans ((resolved.quiet depth quiet').1.trans untouched),
      .settled (.of_shape shape) depth⟩
  · intro plain
    have fits : rest = .nil → decimal (r.table.nameOf n.dataStart n.dataEnd) < 2 ^ 32 := by
      intro noRest
      have here := plain.1
      simp only [PlainNode, isArray, NodeList.length, noRest] at here
      exact here (Nat.le_refl 1)
    obtain ⟨t, written, denotes⟩ := resolved.denotes (plain.head.mono fun _ _ node => node.after lawful ready reads₁)
    rw [reads₁.grows.src] at written
    refine ⟨.node (.made (.array () arrayLen)) [t], ?_, ?_⟩
    · rw [AstNode.written, WrittenPart.combine, isArray]
      rw [AstNode.written] at written
      simp only [NodeList.parts, List.tail_cons, isLen fits, List.head?_cons, Option.bind_some, written]
      rfl
    · exact denotes_made (s := .array baseType arrayLen) shape
        (denoteAll_one (ready₂.denotes_after lawful reads₃ denotes))

end HopHop
