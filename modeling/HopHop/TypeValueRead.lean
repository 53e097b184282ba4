import HopHop.TypeSignatureRead

namespace HopHop

open TypeTable TypeReader

/-- The parameters of a function value: the type that is written, or that of the function type expected. -/
def ValueParams (scope : TypeScope) (values : TypeValues) (src : List UInt8) (c : TypeTable)
    (expectedParams : List FuncParam) : Nat → List WrittenPart → List TypeId → Prop
  | _, [], ids => ids = []
  | k, p :: rest, ids => ∃ id more, ids = id :: more ∧
    (match p.kids with
      | .nil => expectedParams[k]?.map FuncParam.typeId = some id
      | .cons .. => ∃ t, WrittenPart.firstTerm src values p.kids = some t ∧ Denotes scope values c t id) ∧
    ValueParams scope values src c expectedParams (k + 1) rest more

variable {scope : TypeScope} {values : TypeValues} {start : TypeTable} {working : List Nat}
variable {resolve : Int → AstNode → NodeList → TypeReader → Except Diag (TypeId × TypeReader)}

/-- The type of a parameter of a function value. -/
theorem valueParamType_spec (resolver : Resolver scope values start resolve) {expectedParams : List FuncParam}
    {ch : AstNode} {kids : NodeList} {k : Nat} {r r' : TypeReader} {id : TypeId}
    (ready : Ready scope start working r) (holds : ∀ p ∈ expectedParams, r.table.Holds p.typeId)
    (result : valueParamType resolve expectedParams ch kids k r = .ok (id, r')) :
    ReadsTo working r r' ∧ r'.table.Holds id ∧ (QuietFirst scope r.table kids → Untouched r r') ∧
      (kids.Forall (PlainNode scope r.table) →
        match kids with
        | .nil => expectedParams[k]?.map FuncParam.typeId = some id
        | .cons .. => ∃ t, WrittenPart.firstTerm r.table.src values kids = some t ∧
          Denotes scope values r'.table t id) := by
  cases kids with
  | cons typeNodeId typeNode typeKids rest =>
    simp only [valueParamType] at result
    obtain ⟨⟨typeId, r₁⟩, here, more⟩ := ok_of_bind result
    simp only [pure, Except.pure, Except.ok.injEq, Prod.mk.injEq] at more
    obtain ⟨rfl, rfl⟩ := more
    have resolved := (resolver (ready.allowing true true) here).allowing false false
    refine ⟨resolved.reads, resolved.holds, ?_, fun plain => resolved.denotes ⟨plain.1, plain.2.1⟩⟩
    rintro ⟨depth, quiet⟩
    exact (resolved.quiet depth quiet).1
  | nil =>
    simp only [valueParamType] at result
    cases found : expectedParams[k]? with
    | none =>
      rw [found] at result
      cases result
    | some param =>
      rw [found] at result
      cases result
      refine ⟨.refl ready.good, holds param (List.mem_of_getElem? found), fun _ => .refl r, fun _ => ?_⟩
      rw [Option.map_some]

/-- What the loop of `H2TCRegisterFunctionValueNode` comes to. -/
structure ValueRead (scope : TypeScope) (values : TypeValues) (working : List Nat) (expectedParams : List FuncParam)
    (kids : NodeList) (parts : ValueParts) (r : TypeReader) (parts' : ValueParts) (r' : TypeReader) : Prop where
  reads : ReadsTo working r r'
  denotes : kids.Forall (PlainNode scope r.table) →
    kids.EachLater (QuietValue scope r.table) (·.kind = .PARAM) (0 < parts.paramCount) →
    (∃ ids, r'.params parts'.paramCount = r.params parts.paramCount ++
        List.zipWith FuncParam.mk ids (WrittenPart.consts (WrittenPart.sigParams (kids.parts r.table.src values))) ∧
      ValueParams scope values r.table.src r'.table expectedParams parts.paramCount
        (WrittenPart.sigParams (kids.parts r.table.src values)) ids) ∧
    parts'.isVariadic = (parts.isVariadic ||
      WrittenPart.anyVariadic (WrittenPart.sigParams (kids.parts r.table.src values))) ∧
    ResultDenotes scope values r'.table (WrittenPart.sigResults (kids.parts r.table.src values)) parts.returnType
      parts'.returnType

theorem readValueParts_spec (lawful : scope.Lawful values start) (resolver : Resolver scope values start resolve)
    {expectedParams : List FuncParam} :
    ∀ (kids : NodeList) {parts parts' : ValueParts} {r r' : TypeReader}, Ready scope start working r →
      (∀ p ∈ expectedParams, r.table.Holds p.typeId) →
      readValueParts resolve expectedParams kids parts r = .ok (parts', r') →
      ValueRead scope values working expectedParams kids parts r parts' r'
  | .nil, parts, parts', r, r', ready, holds, result => by
    cases result
    refine ⟨.refl ready.good, fun _ _ => ⟨⟨[], (List.append_nil _).symm, rfl⟩, ?_, rfl⟩⟩
    exact (Bool.or_false _).symm
  | .cons chId ch kids rest, parts, parts', r, r', ready, holds, result => by
    have laterAfter : ∀ {r₁ : TypeReader} {later : Bool}, ReadsTo working r r₁ →
        rest.EachLater (QuietValue scope r.table) (·.kind = .PARAM) later →
        rest.EachLater (QuietValue scope r₁.table) (·.kind = .PARAM) later := by
      intro r₁ later reads quiets
      refine quiets.mono ?_
      intro n kids quiet
      exact ⟨fun isParam => (quiet.1 isParam).after lawful ready reads,
        fun isResult => (quiet.2 isResult).after lawful ready reads⟩
    have plainAfter : ∀ {r₁ : TypeReader}, ReadsTo working r r₁ → rest.Forall (PlainNode scope r.table) →
        rest.Forall (PlainNode scope r₁.table) := fun reads plain =>
      plain.mono fun _ _ node => node.after lawful ready reads
    have holdsAfter : ∀ {r₁ : TypeReader}, ReadsTo working r r₁ → ∀ p ∈ expectedParams, r₁.table.Holds p.typeId :=
      fun reads p member => reads.grows.holds (holds p member)
    simp only [readValueParts] at result
    split at result
    · cases result
    by_cases isParam : ch.kind = .PARAM
    · simp only [isParam, if_true] at result
      split at result
      · cases result
      rename_i free
      obtain ⟨⟨typeId, r₁⟩, here, more⟩ := ok_of_bind result
      obtain ⟨reads, holdsType, quiet, denotes⟩ := valueParamType_spec resolver ready holds here
      have ready₁ := ready.after reads
      have reads₂ := (reads.setParam holdsType parts.paramCount).setFlag parts.paramCount (ch.has AstFlag.PARAM_CONST)
      have ready₂ := ready.after reads₂
      have free₁ : parts.paramCount < r₁.scratchParamTypes.length := by
        rw [reads.types_length]
        omega
      have params₂ := params_succ free₁ ready₁.lengths typeId (ch.has AstFlag.PARAM_CONST)
      have tail := readValueParts_spec lawful resolver rest ready₂ (holdsAfter reads₂) more
      refine ⟨reads₂.trans tail.reads, ?_⟩
      intro plain later
      have isLater : (decide (0 < parts.paramCount) || decide (ch.kind = .PARAM)) =
          decide (0 < parts.paramCount + 1) := by simp [isParam]
      obtain ⟨⟨ids, isParams, denoteParams⟩, variadic, results⟩ :=
        tail.denotes (plainAfter reads₂ plain.2.2) (isLater ▸ laterAfter reads₂ later.2)
      have source : ((r₁.setParam parts.paramCount typeId).setFlag parts.paramCount
          (ch.has AstFlag.PARAM_CONST)).table.src = r.table.src := reads₂.grows.src
      rw [source] at isParams denoteParams variadic results
      have denotesType := denotes plain.2.1
      have untouched : r₁.params parts.paramCount = r.params parts.paramCount := by
        by_cases first : 0 < parts.paramCount
        · exact (quiet ((later.1 (decide_eq_true first)).1 isParam)).params _
        · rw [show parts.paramCount = 0 by omega]
          rfl
      have params' : WrittenPart.sigParams (⟨ch, kids, ch.written r.table.src values kids⟩ ::
          rest.parts r.table.src values) = ⟨ch, kids, ch.written r.table.src values kids⟩ ::
            WrittenPart.sigParams (rest.parts r.table.src values) := by
        simp [WrittenPart.sigParams, isParam]
      have results' : WrittenPart.sigResults (⟨ch, kids, ch.written r.table.src values kids⟩ ::
          rest.parts r.table.src values) = WrittenPart.sigResults (rest.parts r.table.src values) := by
        simp [WrittenPart.sigResults, isParam]
      rw [parts_cons, params', results']
      refine ⟨⟨typeId :: ids, ?_, typeId, ids, rfl, ?_, denoteParams⟩, ?_, results⟩
      · rw [isParams, params₂, untouched, List.append_assoc]
        rfl
      · cases kids with
        | nil => exact denotesType
        | cons firstId first firstKids others =>
          obtain ⟨t, written, denotes'⟩ := denotesType
          exact ⟨t, written, ready₂.denotes_after lawful tail.reads denotes'⟩
      · rw [variadic, WrittenPart.anyVariadic, WrittenPart.anyVariadic, List.any_cons, Bool.or_assoc]
    · have notCounted : (decide (0 < parts.paramCount) || decide (ch.kind = .PARAM)) =
          decide (0 < parts.paramCount) := by simp [isParam]
      simp only [isParam, if_false] at result
      split at result
      · rename_i isResult
        obtain ⟨⟨returnType, r₁⟩, here, more⟩ := ok_of_bind result
        have resolved := (resolver (ready.allowing r.allowAnytypeParamType true) here).allowing
          r₁.allowAnytypeParamType false
        have ready₁ := ready.after resolved.reads
        have tail : ValueRead scope values working expectedParams rest { parts with returnType }
            { r₁ with allowConstNumericTypeName := false } parts' r' :=
          readValueParts_spec lawful resolver rest ready₁ (holdsAfter resolved.reads) more
        refine ⟨resolved.reads.trans tail.reads, ?_⟩
        intro plain later
        obtain ⟨⟨ids, isParams, denoteParams⟩, variadic, results⟩ :=
          tail.denotes (plainAfter resolved.reads plain.2.2) (laterAfter resolved.reads (notCounted ▸ later.2))
        have source : r₁.table.src = r.table.src := resolved.reads.grows.src
        simp only [source] at isParams denoteParams variadic results
        obtain ⟨t, written, denotesType⟩ := resolved.denotes ⟨plain.1, plain.2.1⟩
        have isResult' : ch.isResult = true := by simpa [AstNode.isResult] using isResult
        have untouched : TypeReader.params { r₁ with allowConstNumericTypeName := false } parts.paramCount =
            r.params parts.paramCount := by
          by_cases first : 0 < parts.paramCount
          · obtain ⟨depth, quiet⟩ := (later.1 (decide_eq_true first)).2 isResult'
            exact (resolved.quiet depth quiet).1.params _
          · rw [show parts.paramCount = 0 by omega]
            rfl
        rw [parts_cons]
        refine ⟨⟨ids, ?_, ?_⟩, ?_, ?_⟩
        · rw [isParams, untouched]
          simp [WrittenPart.sigParams, isParam]
        · simpa [WrittenPart.sigParams, isParam] using denoteParams
        · simpa [WrittenPart.sigParams, isParam] using variadic
        · have cons := ResultDenotes.cons parts.returnType
            (p := ⟨ch, kids, ch.written r.table.src values kids⟩) results written
            (ready₁.denotes_after lawful tail.reads denotesType)
          simpa [WrittenPart.sigResults, isParam, isResult'] using cons
      · rename_i notResult
        have notResult' : ch.isResult = false := by simpa [AstNode.isResult] using notResult
        have tail := readValueParts_spec lawful resolver rest ready holds result
        refine ⟨tail.reads, ?_⟩
        intro plain later
        have spec := tail.denotes plain.2.2 (notCounted ▸ later.2)
        rw [parts_cons]
        simpa [WrittenPart.sigParams, WrittenPart.sigResults, isParam, notResult'] using spec

end HopHop
