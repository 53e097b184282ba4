import HopHop.TypeResolvedLists

namespace HopHop

open TypeTable TypeReader

variable {scope : TypeScope} {values : TypeValues} {start : TypeTable} {working : List Nat}
variable {resolve : Int → AstNode → NodeList → TypeReader → Except Diag (TypeId × TypeReader)}

theorem length_of_mapM {α β : Type} {f : α → Option β} : ∀ {l : List α} {l' : List β}, l.mapM f = some l' →
    l'.length = l.length
  | [], _, result => by
    cases result
    rfl
  | a :: l, l', result => by
    simp only [List.mapM_cons, Option.bind_eq_bind, Option.bind_eq_some_iff] at result
    obtain ⟨b, -, more, rest, isList⟩ := result
    cases isList
    rw [List.length_cons, List.length_cons, length_of_mapM rest]

/-- What reading the type of a parameter comes to. -/
structure ParamRead (scope : TypeScope) (values : TypeValues) (working : List Nat) (param n : AstNode) (kids : NodeList)
    (r : TypeReader) (id : TypeId) (r' : TypeReader) : Prop where
  reads : ReadsTo working r r'
  holds : r'.table.Holds id
  quiet : ∀ depth, Everywhere (QuietNode scope r.table depth) n kids → Untouched r r'
  denotes : PlainType scope r.table n kids →
    ∃ t, WrittenPart.paramTerm param (n.written r.table.src values kids) = some t ∧ Denotes scope values r'.table t id

theorem variadicType_spec (lawful : scope.Lawful values start) {param n : AstNode} {kids : NodeList}
    {r r₁ r' : TypeReader} {paramType id : TypeId} (ready : Ready scope start working r)
    (resolved : Resolved scope values working n kids r paramType r₁)
    (result : variadicType r₁ param paramType = .ok (id, r')) : ParamRead scope values working param n kids r id r' := by
  have ready₁ := ready.after resolved.reads
  unfold variadicType at result
  split at result
  · rename_i wrapped
    obtain ⟨isVariadic, notAny⟩ := wrapped
    obtain ⟨reads, shape, untouched⟩ := (internSliceType_interns ready₁.good resolved.holds _ _ _).read result
    refine ⟨resolved.reads.trans reads, .of_shape shape,
      fun depth quiet => (resolved.quiet depth quiet).1.trans untouched, ?_⟩
    intro plain
    obtain ⟨t, written, denotes⟩ := resolved.denotes plain
    refine ⟨.node .variadic [t], ?_, .of_shape shape, [paramType], ?_, paramType, rfl, ?_⟩
    · simp only [WrittenPart.paramTerm, isVariadic, if_true, written, Option.map_some]
    · exact denoteAll_one (ready₁.denotes_after lawful reads denotes)
    · rw [if_neg (by rw [reads.grows.typeAnytype]; exact notAny)]
      exact shape
  · rename_i asIs
    cases result
    refine ⟨resolved.reads, resolved.holds, fun depth quiet => (resolved.quiet depth quiet).1, ?_⟩
    intro plain
    obtain ⟨t, written, denotes⟩ := resolved.denotes plain
    by_cases isVariadic : param.has AstFlag.PARAM_VARIADIC = true
    · have isAny : paramType = r₁.table.typeAnytype := by
        by_contra notAny
        exact asIs ⟨isVariadic, notAny⟩
      refine ⟨.node .variadic [t], ?_, resolved.holds, [paramType], denoteAll_one denotes, paramType, rfl, ?_⟩
      · simp only [WrittenPart.paramTerm, isVariadic, if_true, written, Option.map_some]
      · rw [if_pos isAny]
    · exact ⟨t, by simp only [WrittenPart.paramTerm, isVariadic, written]; rfl, denotes⟩

theorem resolveFnParam_spec (lawful : scope.Lawful values start) (resolver : Resolver scope values start resolve)
    {ch : AstNode} {chId : Int} {chKids : NodeList} {isVariadic : Bool} {r r' : TypeReader} {id : TypeId}
    (ready : Ready scope start working r)
    (result : resolveFnParam resolve scope ch chId chKids isVariadic r = .ok (id, r')) :
    ParamRead scope values working ch ch chKids r id r' := by
  obtain ⟨⟨paramType, r₁⟩, here, more⟩ := ok_of_bind result
  have resolved := (resolver (ready.allowing true true) here).allowing false false
  simp only at more
  split at more
  · cases more
  split at more
  · cases more
  split at more
  · cases more
  exact variadicType_spec lawful ready resolved more

theorem Resolved.restore {n : AstNode} {kids : NodeList} {r r' : TypeReader} {id : TypeId}
    (resolved : Resolved scope values working n kids r id r') (k : Nat) :
    Resolved scope values working n kids r id (r'.restore r k) :=
  ⟨resolved.reads.restore k, resolved.holds,
    fun depth quiet => ⟨(resolved.quiet depth quiet).1.restore k, (resolved.quiet depth quiet).2⟩, resolved.denotes⟩

/-- A result is read as any type; the parameters come back as they were. -/
theorem resolveReturnType_spec (resolver : Resolver scope values start resolve) {ch : AstNode} {chId : Int}
    {chKids : NodeList} {paramCount : Nat} {r r' : TypeReader} {id : TypeId} (ready : Ready scope start working r)
    (result : resolveReturnType resolve scope ch chId chKids paramCount r = .ok (id, r')) :
    Resolved scope values working ch chKids r id r' ∧ r'.params paramCount = r.params paramCount := by
  unfold resolveReturnType at result
  split at result
  · cases result
  obtain ⟨⟨returnType, r₁⟩, here, more⟩ := ok_of_bind result
  have resolved := (resolver (ready.allowing r.allowAnytypeParamType true) here).allowing r₁.allowAnytypeParamType false
  simp only at more
  split at more
  · cases more
  · cases more
    exact ⟨resolved.restore paramCount, resolved.reads.params_restore paramCount⟩

/-- What the loop over the parts of a function type comes to. -/
structure FnRead (scope : TypeScope) (values : TypeValues) (working : List Nat) (kids : NodeList) (parts : FnParts)
    (r : TypeReader) (parts' : FnParts) (r' : TypeReader) : Prop where
  reads : ReadsTo working r r'
  result : r'.table.Holds parts'.returnType
  holds : ∀ p ∈ r'.params parts'.paramCount, r'.table.Holds p.typeId
  quiet : ∀ depth, kids.OnlyResults → kids.Forall (QuietNode scope r.table depth) → Untouched r r'
  denotes : kids.Forall (PlainNode scope r.table) →
    kids.EachLater (fun n kids => n.flags ≠ 1 → QuietType scope r.table n kids) (·.flags ≠ 1) (0 < parts.paramCount) →
    ∃ types ids,
      (WrittenPart.params (kids.parts r.table.src values)).mapM (fun p => WrittenPart.paramTerm p.node p.term) = some types ∧
      DenoteAll scope values r'.table types ids ∧
      r'.params parts'.paramCount = r.params parts.paramCount ++ List.zipWith FuncParam.mk ids
        ((WrittenPart.params (kids.parts r.table.src values)).map (·.node.has AstFlag.PARAM_CONST)) ∧
      parts'.isVariadic = (parts.isVariadic ||
        (WrittenPart.params (kids.parts r.table.src values)).any (·.node.has AstFlag.PARAM_VARIADIC)) ∧
      ((kids.parts r.table.src values).filter (·.node.flags = 1) = [] ∧ parts'.returnType = parts.returnType ∨
        parts.sawReturnType = false ∧ ∃ p t, (kids.parts r.table.src values).filter (·.node.flags = 1) = [p] ∧
          p.term = some t ∧ Denotes scope values r'.table t parts'.returnType)

theorem resolveFnParts_spec (lawful : scope.Lawful values start) (resolver : Resolver scope values start resolve) :
    ∀ (kids : NodeList) {parts parts' : FnParts} {r r' : TypeReader}, Ready scope start working r →
      r.table.Holds parts.returnType → (∀ p ∈ r.params parts.paramCount, r.table.Holds p.typeId) →
      resolveFnParts resolve scope kids parts r = .ok (parts', r') → FnRead scope values working kids parts r parts' r'
  | .nil, parts, parts', r, r', ready, returnHolds, holds, result => by
    cases result
    refine ⟨.refl ready.good, returnHolds, holds, fun _ _ _ => .refl r, fun _ _ => ⟨[], [], rfl, rfl, ?_, ?_, ?_⟩⟩
    · exact (List.append_nil _).symm
    · exact (Bool.or_false _).symm
    · exact .inl ⟨rfl, rfl⟩
  | .cons chId ch chKids rest, parts, parts', r, r', ready, returnHolds, holds, result => by
    simp only [resolveFnParts] at result
    by_cases isResult : ch.flags = 1
    · simp only [isResult, if_true] at result
      split at result
      · cases result
      rename_i notSeen
      obtain ⟨⟨returnType, r₁⟩, here, more⟩ := ok_of_bind result
      obtain ⟨resolved, sameParams⟩ := resolveReturnType_spec resolver ready here
      have ready₁ := ready.after resolved.reads
      have holds₁ : ∀ p ∈ r₁.params parts.paramCount, r₁.table.Holds p.typeId := by
        rw [sameParams]
        exact fun p member => resolved.reads.grows.holds (holds p member)
      have tail : FnRead scope values working rest { parts with returnType, sawReturnType := true } r₁ parts' r' :=
        resolveFnParts_spec lawful resolver rest ready₁ resolved.holds holds₁ more
      refine ⟨resolved.reads.trans tail.reads, tail.result, tail.holds, ?_, ?_⟩
      · intro depth only quiet
        have quiet' := quiet.2.2.mono fun _ _ node => QuietNode.after lawful ready resolved.reads node
        exact (resolved.quiet depth ⟨quiet.1, quiet.2.1⟩).1.trans (tail.quiet depth only.2 quiet')
      · intro plain later
        obtain ⟨t, written, denotes⟩ := resolved.denotes ⟨plain.1, plain.2.1⟩
        have plain' := plain.2.2.mono fun _ _ node => node.after lawful ready resolved.reads
        have later' : rest.EachLater (fun n kids => n.flags ≠ 1 → QuietType scope r₁.table n kids) (·.flags ≠ 1)
            (decide (0 < parts.paramCount) || decide (ch.flags ≠ 1)) := by
          refine later.2.mono ?_
          intro n kids quiet isParam
          exact (quiet isParam).after lawful ready resolved.reads
        have isLater : (decide (0 < parts.paramCount) || decide (ch.flags ≠ 1)) = decide (0 < parts.paramCount) := by
          simp [isResult]
        obtain ⟨types, ids, writtenAll, all, isParams, variadic, results⟩ := tail.denotes plain' (isLater ▸ later')
        simp only [resolved.reads.grows.src] at writtenAll isParams variadic results
        have noParam : WrittenPart.params ((NodeList.cons chId ch chKids rest).parts r.table.src values) =
            WrittenPart.params (rest.parts r.table.src values) := by
          simp [WrittenPart.params, parts_cons, isResult]
        have isFirst : ((NodeList.cons chId ch chKids rest).parts r.table.src values).filter (·.node.flags = 1) =
            ⟨ch, chKids, ch.written r.table.src values chKids⟩ ::
              (rest.parts r.table.src values).filter (·.node.flags = 1) := by
          simp [parts_cons, isResult]
        rw [noParam, isFirst]
        refine ⟨types, ids, writtenAll, all, by rw [isParams, sameParams], variadic, .inr ⟨?_, ?_⟩⟩
        · exact Bool.eq_false_iff.mpr notSeen
        · rcases results with ⟨noMore, same⟩ | ⟨seen, -⟩
          · rw [noMore, same]
            exact ⟨_, t, rfl, written, ready₁.denotes_after lawful tail.reads denotes⟩
          · cases seen
    · simp only [isResult, if_false] at result
      split at result
      · cases result
      rename_i free
      obtain ⟨⟨paramType, r₁⟩, here, more⟩ := ok_of_bind result
      have param := resolveFnParam_spec lawful resolver ready here
      have reads₂ := (param.reads.setParam param.holds parts.paramCount).setFlag parts.paramCount
        (ch.has AstFlag.PARAM_CONST)
      have ready₁ := ready.after param.reads
      have ready₂ := ready.after reads₂
      have free₁ : parts.paramCount < r₁.scratchParamTypes.length := by
        rw [param.reads.types_length]
        omega
      have params₂ := params_succ free₁ ready₁.lengths paramType (ch.has AstFlag.PARAM_CONST)
      have holds₂ : ∀ p ∈ ((r₁.setParam parts.paramCount paramType).setFlag parts.paramCount
          (ch.has AstFlag.PARAM_CONST)).params (parts.paramCount + 1), r₁.table.Holds p.typeId := by
        rw [params₂]
        intro p member
        rcases List.mem_append.mp member with old | new
        · exact param.reads.holds_params holds ready.lengths p old
        · rw [List.mem_singleton.mp new]
          exact param.holds
      have tail : FnRead scope values working rest
          { parts with
            paramCount := parts.paramCount + 1
            isVariadic := parts.isVariadic || ch.has AstFlag.PARAM_VARIADIC }
          ((r₁.setParam parts.paramCount paramType).setFlag parts.paramCount (ch.has AstFlag.PARAM_CONST)) parts' r' :=
        resolveFnParts_spec lawful resolver rest ready₂ (param.reads.grows.holds returnHolds) holds₂ more
      refine ⟨reads₂.trans tail.reads, tail.result, tail.holds, ?_, ?_⟩
      · intro depth only
        exact absurd only.1 isResult
      · intro plain later
        obtain ⟨t, written, denotes⟩ := param.denotes ⟨plain.1, plain.2.1⟩
        have plain' := plain.2.2.mono fun _ _ node => node.after lawful ready reads₂
        have later' : rest.EachLater (fun n kids => n.flags ≠ 1 → QuietType scope r₁.table n kids) (·.flags ≠ 1)
            (decide (0 < parts.paramCount) || decide (ch.flags ≠ 1)) := by
          refine later.2.mono ?_
          intro n kids quiet isParam
          exact (quiet isParam).after lawful ready reads₂
        have isLater : (decide (0 < parts.paramCount) || decide (ch.flags ≠ 1)) =
            decide (0 < parts.paramCount + 1) := by simp [isResult]
        obtain ⟨types, ids, writtenAll, all, isParams, variadic, results⟩ := tail.denotes plain' (isLater ▸ later')
        simp only [reads₂.grows.src] at writtenAll isParams variadic results
        have isFirst : WrittenPart.params ((NodeList.cons chId ch chKids rest).parts r.table.src values) =
            ⟨ch, chKids, ch.written r.table.src values chKids⟩ :: WrittenPart.params (rest.parts r.table.src values) := by
          simp [WrittenPart.params, parts_cons, isResult]
        have noResult : ((NodeList.cons chId ch chKids rest).parts r.table.src values).filter (·.node.flags = 1) =
            (rest.parts r.table.src values).filter (·.node.flags = 1) := by
          simp [parts_cons, isResult]
        have untouched : r₁.params parts.paramCount = r.params parts.paramCount := by
          by_cases first : 0 < parts.paramCount
          · obtain ⟨depth, quiet⟩ := later.1 (decide_eq_true first) isResult
            exact (param.quiet depth quiet).params _
          · rw [show parts.paramCount = 0 by omega]
            rfl
        rw [isFirst, noResult]
        refine ⟨t :: types, paramType :: ids, ?_, ?_, ?_, ?_, results⟩
        · simp only [List.mapM_cons, written, writtenAll]
          rfl
        · exact ⟨paramType, ids, rfl, ready₂.denotes_after lawful tail.reads denotes, all⟩
        · rw [isParams, params₂, untouched, List.append_assoc]
          rfl
        · rw [variadic, List.any_cons, Bool.or_assoc]

/-- A function type is its result and its parameters, each with its attribute. -/
theorem denotes_function {c : TypeTable} {ids : List TypeId} {flags : List Bool} {types : List TypeTerm} {t : TypeTerm}
    {returnType id : TypeId} {isVariadic : Bool}
    (shape : c.shape id = some (.function returnType
      ((List.zipWith FuncParam.mk ids flags).map fun p => (p.typeId, p.isConst)) isVariadic))
    (lengths : ids.length = flags.length) (denotes : Denotes scope values c t returnType)
    (all : DenoteAll scope values c types ids) :
    Denotes scope values c (.node (.made (.function () (flags.map ((), ·)) isVariadic)) (t :: types)) id := by
  have pairs : ((List.zipWith FuncParam.mk ids flags).map fun p => (p.typeId, p.isConst)) = ids.zip flags := by
    rw [List.map_zipWith]
    rfl
  have seconds : (ids.zip flags).map Prod.snd = flags := List.map_snd_zip (by omega)
  have firsts : (ids.zip flags).map Prod.fst = ids := List.map_fst_zip (by omega)
  have heads : TypeShape.function () (flags.map ((), ·)) isVariadic =
      (TypeShape.function returnType (ids.zip flags) isVariadic).head := by
    simp only [TypeShape.head, TypeShape.map]
    rw [← seconds, List.map_map, seconds]
    rfl
  rw [pairs] at shape
  rw [heads]
  refine denotes_made shape ?_
  simp only [TypeShape.parts, firsts]
  exact ⟨returnType, ids, rfl, denotes, all⟩

theorem resolveFn_spec (lawful : scope.Lawful values start) (resolver : Resolver scope values start resolve)
    {n : AstNode} {kids : NodeList} {r r' : TypeReader} {id : TypeId} (ready : Ready scope start working r)
    (isFn : n.kind = .TYPE_FN) (result : resolveFn resolve scope n kids r = .ok (id, r')) :
    Resolved scope values working n kids r id r' := by
  obtain ⟨⟨parts, r₁⟩, read, made⟩ := ok_of_bind result
  have nothing : ∀ p ∈ r.params 0, r.table.Holds p.typeId := by
    intro p member
    simp [TypeReader.params] at member
  have fn := resolveFnParts_spec lawful resolver kids ready ready.void nothing read
  have ready₁ := ready.after fn.reads
  obtain ⟨reads, shape, untouched⟩ := (internFunctionType_interns ready₁.good fn.result fn.holds _ _ _).read made
  refine ⟨fn.reads.trans reads, .of_shape shape, ?_, ?_⟩
  · intro depth quiet
    have only : QuietNodeWith scope r.table (QuietAlias scope r.table depth) n kids := quiet.1
    simp only [QuietNodeWith, isFn] at only
    exact ⟨(fn.quiet depth only quiet.2).trans untouched, .settled (.of_shape shape) depth⟩
  · intro plain
    have later := plain.1
    simp only [PlainNode, isFn] at later
    obtain ⟨types, ids, written, all, isParams, variadic, results⟩ := fn.denotes plain.2 later
    have noParams : r.params 0 = [] := by simp [TypeReader.params]
    rw [noParams, List.nil_append] at isParams
    rw [Bool.false_or] at variadic
    obtain ⟨t, isResult, denotes⟩ : ∃ t, WrittenPart.resultTerm (kids.parts r.table.src values) = some t ∧
        Denotes scope values r₁.table t parts.returnType := by
      rcases results with ⟨none', isVoid⟩ | ⟨-, p, t, one, isTerm, denotes⟩
      · refine ⟨.node .noResult [], by simp only [WrittenPart.resultTerm, none'], fn.result, [], rfl, rfl, ?_⟩
        rw [isVoid, fn.reads.grows.typeVoid]
      · exact ⟨t, by simp only [WrittenPart.resultTerm, one, isTerm], denotes⟩
    have lengths : ids.length = (WrittenPart.params (kids.parts r.table.src values)).length := by
      have := all.length
      have := length_of_mapM written
      omega
    have isWritten : n.written r.table.src values kids = some (.node (.made (.function ()
        ((WrittenPart.params (kids.parts r.table.src values)).map fun p => ((), p.node.has AstFlag.PARAM_CONST))
        parts.isVariadic)) (t :: types)) := by
      rw [AstNode.written, WrittenPart.combine, isFn]
      simp only [isResult, written, variadic]
      rfl
    refine ⟨_, isWritten, ?_⟩
    have consts : ((WrittenPart.params (kids.parts r.table.src values)).map fun p =>
        ((), p.node.has AstFlag.PARAM_CONST)) =
        ((WrittenPart.params (kids.parts r.table.src values)).map (·.node.has AstFlag.PARAM_CONST)).map ((), ·) := by
      rw [List.map_map]
      rfl
    rw [consts]
    refine denotes_function (isParams ▸ shape) (by rw [lengths, List.length_map]) ?_ ?_
    · exact ready₁.denotes_after lawful reads denotes
    · exact ready₁.denoteAll_after lawful reads all

end HopHop
