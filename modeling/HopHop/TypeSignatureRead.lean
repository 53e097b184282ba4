import HopHop.TypeResolveRun

namespace HopHop

open TypeTable TypeReader

/-- The node is a type that stands as a result. -/
def AstNode.isResult (n : AstNode) : Bool := isTypeNodeKind n.kind ∧ n.flags = 1

namespace WrittenPart

/-- The parameters of a function declaration. -/
def sigParams (parts : List WrittenPart) : List WrittenPart := parts.filter (·.node.kind = .PARAM)

def sigResults (parts : List WrittenPart) : List WrittenPart :=
  parts.filter fun p => p.node.kind ≠ .PARAM ∧ p.node.isResult

def sigContexts (parts : List WrittenPart) : List WrittenPart := parts.filter (·.node.kind = .CONTEXT_CLAUSE)

/-- The type that the first child of a node writes. -/
def firstTerm (src : List UInt8) (values : TypeValues) (kids : NodeList) : Option TypeTerm :=
  (kids.parts src values).head?.bind term

/-- The attributes of parameters. -/
def consts (parts : List WrittenPart) : List Bool := parts.map (·.node.has AstFlag.PARAM_CONST)

def anyVariadic (parts : List WrittenPart) : Bool := parts.any (·.node.has AstFlag.PARAM_VARIADIC)

end WrittenPart

/-- The first child of a node is a type that is read without the buffers. -/
def QuietFirst (scope : TypeScope) (c : TypeTable) : NodeList → Prop
  | .nil => True
  | .cons _ n kids _ => QuietType scope c n kids

/-- A parameter or a context clause that is read without the buffers. -/
def QuietSig (scope : TypeScope) (c : TypeTable) (n : AstNode) (kids : NodeList) : Prop :=
  n.kind = .PARAM ∨ n.kind = .CONTEXT_CLAUSE → QuietFirst scope c kids

/-- A parameter or a result that is read without the buffers. -/
def QuietValue (scope : TypeScope) (c : TypeTable) (n : AstNode) (kids : NodeList) : Prop :=
  (n.kind = .PARAM → QuietFirst scope c kids) ∧ (n.isResult = true → QuietType scope c n kids)

variable {scope : TypeScope} {values : TypeValues} {start : TypeTable} {working : List Nat}
variable {resolve : Int → AstNode → NodeList → TypeReader → Except Diag (TypeId × TypeReader)}

theorem QuietFirst.after {r r' : TypeReader} (lawful : scope.Lawful values start)
    (ready : Ready scope start working r) (reads : ReadsTo working r r') {kids : NodeList}
    (quiet : QuietFirst scope r.table kids) : QuietFirst scope r'.table kids := by
  cases kids with
  | nil => trivial
  | cons id n below rest =>
    have here : QuietType scope r.table n below := quiet
    exact here.after lawful ready reads

/-- What a signature says of a parameter list: the types that are written, each with its attribute. -/
structure ParamsDenote (scope : TypeScope) (values : TypeValues) (src : List UInt8) (c : TypeTable)
    (written : List WrittenPart) (params : List FuncParam) : Prop where
  types : ∃ ts, written.mapM (fun p => p.node.writtenParam src values p.kids) = some ts ∧
    DenoteAll scope values c ts (params.map FuncParam.typeId)
  flags : params.map FuncParam.isConst = WrittenPart.consts written

/-- The last result that is written, or what stood for it before. -/
def ResultDenotes (scope : TypeScope) (values : TypeValues) (c : TypeTable) (results : List WrittenPart)
    (before returnType : TypeId) : Prop :=
  match results.getLast? with
  | none => returnType = before
  | some p => ∃ t, p.term = some t ∧ Denotes scope values c t returnType

/-- The context clause, if there is one. -/
def ContextDenotes (scope : TypeScope) (values : TypeValues) (src : List UInt8) (c : TypeTable)
    (contexts : List WrittenPart) (before contextType : TypeId) : Prop :=
  match contexts with
  | [] => contextType = before
  | [p] => before = none ∧ ∃ t, WrittenPart.firstTerm src values p.kids = some t ∧ Denotes scope values c t contextType
  | _ => False

theorem ResultDenotes.cons {c : TypeTable} {results : List WrittenPart} (before : TypeId) {returnType middle : TypeId}
    {p : WrittenPart} {t : TypeTerm} (rest : ResultDenotes scope values c results middle returnType)
    (written : p.term = some t) (denotes : Denotes scope values c t middle) :
    ResultDenotes scope values c (p :: results) before returnType := by
  unfold ResultDenotes at rest ⊢
  rw [List.getLast?_cons]
  cases last : results.getLast? with
  | none =>
    rw [last] at rest
    simp only at rest
    rw [rest]
    exact ⟨t, written, denotes⟩
  | some q =>
    rw [last] at rest
    exact rest

theorem ParamsDenote.nil {src : List UInt8} {c : TypeTable} : ParamsDenote scope values src c [] [] :=
  ⟨⟨[], rfl, rfl⟩, rfl⟩

theorem ParamsDenote.cons {src : List UInt8} {c : TypeTable} {written : List WrittenPart} {params : List FuncParam}
    (rest : ParamsDenote scope values src c written params) {p : WrittenPart} {id : TypeId} {t : TypeTerm}
    (isTerm : p.node.writtenParam src values p.kids = some t) (denotes : Denotes scope values c t id) :
    ParamsDenote scope values src c (p :: written) (⟨id, p.node.has AstFlag.PARAM_CONST⟩ :: params) := by
  obtain ⟨⟨ts, writtenAll, all⟩, flags⟩ := rest
  refine ⟨⟨t :: ts, ?_, id, _, rfl, denotes, all⟩, ?_⟩
  · simp only [List.mapM_cons, isTerm, writtenAll]
    rfl
  · rw [List.map_cons, flags]
    rfl

/-- The type of a parameter of a declaration. -/
theorem readParamType_spec (lawful : scope.Lawful values start) (resolver : Resolver scope values start resolve)
    {n : AstNode} {kids : NodeList} {r r' : TypeReader} {id : TypeId} (ready : Ready scope start working r)
    (result : readParamType resolve scope n kids r = .ok (id, r')) :
    ReadsTo working r r' ∧ r'.table.Holds id ∧ (QuietFirst scope r.table kids → Untouched r r') ∧
      (kids.Forall (PlainNode scope r.table) → ∃ t, n.writtenParam r.table.src values kids = some t ∧
        Denotes scope values r'.table t id) := by
  unfold readParamType at result
  split at result
  · cases result
  rename_i typeNodeId typeNode typeKids rest
  obtain ⟨⟨paramType, r₁⟩, here, more⟩ := ok_of_bind result
  have resolved := (resolver (ready.allowing true true) here).allowing false false
  simp only at more
  split at more
  · cases more
  split at more
  · cases more
  have param := variadicType_spec lawful ready resolved more
  refine ⟨param.reads, param.holds, ?_, fun plain => param.denotes ⟨plain.1, plain.2.1⟩⟩
  rintro ⟨depth, quiet⟩
  exact param.quiet depth quiet

/-- What the loop of `H2TCReadFunctionSig` comes to. -/
structure SigRead (scope : TypeScope) (values : TypeValues) (working : List Nat) (kids : NodeList) (parts : SigParts)
    (r : TypeReader) (parts' : SigParts) (r' : TypeReader) : Prop where
  reads : ReadsTo working r r'
  denotes : kids.Forall (PlainNode scope r.table) →
    kids.EachLater (QuietSig scope r.table) (·.kind = .PARAM) (0 < parts.paramCount) →
    (∃ params, r'.params parts'.paramCount = r.params parts.paramCount ++ params ∧
      ParamsDenote scope values r.table.src r'.table (WrittenPart.sigParams (kids.parts r.table.src values)) params) ∧
    parts'.isVariadic = (parts.isVariadic ||
      WrittenPart.anyVariadic (WrittenPart.sigParams (kids.parts r.table.src values))) ∧
    ResultDenotes scope values r'.table (WrittenPart.sigResults (kids.parts r.table.src values)) parts.returnType
      parts'.returnType ∧
    ContextDenotes scope values r.table.src r'.table (WrittenPart.sigContexts (kids.parts r.table.src values))
      parts.contextType parts'.contextType

theorem resolveFirst_ok {kids : NodeList} {r r' : TypeReader} {id : TypeId}
    (resolver : Resolver scope values start resolve) (ready : Ready scope start working r)
    (result : resolveFirst resolve kids r = .ok (id, r')) :
    ReadsTo working r r' ∧ r'.table.Holds id ∧ (QuietFirst scope r.table kids → Untouched r r') ∧
      (kids.Forall (PlainNode scope r.table) → ∃ t, WrittenPart.firstTerm r.table.src values kids = some t ∧
        Denotes scope values r'.table t id) := by
  unfold resolveFirst at result
  split at result
  · cases result
  · have resolved := resolver ready result
    refine ⟨resolved.reads, resolved.holds, ?_, fun plain => resolved.denotes ⟨plain.1, plain.2.1⟩⟩
    rintro ⟨depth, quiet⟩
    exact (resolved.quiet depth quiet).1

theorem resolveReturnType_first {ch : AstNode} {chId : Int} {chKids : NodeList} {paramCount : Nat}
    {r r' : TypeReader} {id : TypeId} (resolver : Resolver scope values start resolve)
    (ready : Ready scope start working r)
    (result : resolveReturnType resolve scope ch chId chKids paramCount r = .ok (id, r')) :
    ReadsTo working r r' ∧ r'.table.Holds id ∧ r'.params paramCount = r.params paramCount ∧
      (PlainType scope r.table ch chKids → ∃ t, ch.written r.table.src values chKids = some t ∧
        Denotes scope values r'.table t id) := by
  obtain ⟨resolved, same⟩ := resolveReturnType_spec resolver ready result
  exact ⟨resolved.reads, resolved.holds, same, resolved.denotes⟩

theorem readSigParts_spec (lawful : scope.Lawful values start) (resolver : Resolver scope values start resolve) :
    ∀ (kids : NodeList) {parts parts' : SigParts} {r r' : TypeReader}, Ready scope start working r →
      readSigParts resolve scope kids parts r = .ok (parts', r') → SigRead scope values working kids parts r parts' r'
  | .nil, parts, parts', r, r', ready, result => by
    cases result
    refine ⟨.refl ready.good, fun _ _ => ⟨⟨[], (List.append_nil _).symm, .nil⟩, ?_, rfl, rfl⟩⟩
    exact (Bool.or_false _).symm
  | .cons nId n kids rest, parts, parts', r, r', ready, result => by
    have laterAfter : ∀ {r₁ : TypeReader} {later : Bool}, ReadsTo working r r₁ →
        rest.EachLater (QuietSig scope r.table) (·.kind = .PARAM) later →
        rest.EachLater (QuietSig scope r₁.table) (·.kind = .PARAM) later := by
      intro r₁ later reads quiets
      refine quiets.mono ?_
      intro n kids quiet reader
      exact (quiet reader).after lawful ready reads
    have plainAfter : ∀ {r₁ : TypeReader}, ReadsTo working r r₁ → rest.Forall (PlainNode scope r.table) →
        rest.Forall (PlainNode scope r₁.table) := fun reads plain =>
      plain.mono fun _ _ node => node.after lawful ready reads
    simp only [readSigParts] at result
    by_cases isParam : n.kind = .PARAM
    · simp only [isParam, if_true] at result
      split at result
      · cases result
      split at result
      · cases result
      rename_i free
      obtain ⟨⟨typeId, r₁⟩, here, more⟩ := ok_of_bind result
      obtain ⟨reads, holds, quiet, denotes⟩ := readParamType_spec lawful resolver ready here
      have ready₁ := ready.after reads
      have reads₂ := (reads.setParam holds parts.paramCount).setFlag parts.paramCount (n.has AstFlag.PARAM_CONST)
      have ready₂ := ready.after reads₂
      have free₁ : parts.paramCount < r₁.scratchParamTypes.length := by
        rw [reads.types_length]
        omega
      have params₂ := params_succ free₁ ready₁.lengths typeId (n.has AstFlag.PARAM_CONST)
      have tail := readSigParts_spec lawful resolver rest ready₂ more
      refine ⟨reads₂.trans tail.reads, ?_⟩
      intro plain later
      have isLater : (decide (0 < parts.paramCount) || decide (n.kind = .PARAM)) =
          decide (0 < parts.paramCount + 1) := by simp [isParam]
      obtain ⟨⟨params, isParams, denoteParams⟩, variadic, results, context⟩ :=
        tail.denotes (plainAfter reads₂ plain.2.2) (isLater ▸ laterAfter reads₂ later.2)
      have source : ((r₁.setParam parts.paramCount typeId).setFlag parts.paramCount
          (n.has AstFlag.PARAM_CONST)).table.src = r.table.src := reads₂.grows.src
      rw [source] at denoteParams variadic results context
      obtain ⟨t, isTerm, denotesType⟩ := denotes plain.2.1
      have untouched : r₁.params parts.paramCount = r.params parts.paramCount := by
        by_cases first : 0 < parts.paramCount
        · exact (quiet (later.1 (decide_eq_true first) (.inl isParam))).params _
        · rw [show parts.paramCount = 0 by omega]
          rfl
      have onlyParam : ∀ (q : List WrittenPart) (p : WrittenPart), p.node = n →
          WrittenPart.sigParams (p :: q) = p :: WrittenPart.sigParams q ∧
          WrittenPart.sigResults (p :: q) = WrittenPart.sigResults q ∧
          WrittenPart.sigContexts (p :: q) = WrittenPart.sigContexts q := by
        intro q p isNode
        simp [WrittenPart.sigParams, WrittenPart.sigResults, WrittenPart.sigContexts, isNode, isParam]
      obtain ⟨params', results', contexts'⟩ := onlyParam (rest.parts r.table.src values)
        ⟨n, kids, n.written r.table.src values kids⟩ rfl
      rw [parts_cons, params', results', contexts']
      refine ⟨⟨⟨typeId, n.has AstFlag.PARAM_CONST⟩ :: params, ?_, ?_⟩, ?_, results, context⟩
      · rw [isParams, params₂, untouched, List.append_assoc]
        rfl
      · exact denoteParams.cons isTerm (ready₂.denotes_after lawful tail.reads denotesType)
      · rw [variadic, WrittenPart.anyVariadic, WrittenPart.anyVariadic, List.any_cons, Bool.or_assoc]
    · have notCounted : (decide (0 < parts.paramCount) || decide (n.kind = .PARAM)) = decide (0 < parts.paramCount) := by
        simp [isParam]
      simp only [isParam, if_false] at result
      split at result
      · rename_i isResult
        obtain ⟨⟨returnType, r₁⟩, here, more⟩ := ok_of_bind result
        obtain ⟨reads, holds, same, denotes⟩ := resolveReturnType_first resolver ready here
        have ready₁ := ready.after reads
        have tail : SigRead scope values working rest { parts with returnType } r₁ parts' r' :=
          readSigParts_spec lawful resolver rest ready₁ more
        refine ⟨reads.trans tail.reads, ?_⟩
        intro plain later
        obtain ⟨⟨params, isParams, denoteParams⟩, variadic, results, context⟩ :=
          tail.denotes (plainAfter reads plain.2.2) (laterAfter reads (notCounted ▸ later.2))
        rw [reads.grows.src] at denoteParams variadic results context
        obtain ⟨t, written, denotesType⟩ := denotes ⟨plain.1, plain.2.1⟩
        have isResult' : n.isResult = true := by simpa [AstNode.isResult] using isResult
        have notContext : n.kind ≠ .CONTEXT_CLAUSE := by
          intro isContext
          rw [isContext] at isResult
          exact absurd isResult.1 (by decide)
        rw [parts_cons]
        refine ⟨⟨params, ?_, ?_⟩, ?_, ?_, ?_⟩
        · rw [isParams, same]
        · simpa [WrittenPart.sigParams, isParam] using denoteParams
        · simpa [WrittenPart.sigParams, isParam] using variadic
        · have cons := ResultDenotes.cons parts.returnType
            (p := ⟨n, kids, n.written r.table.src values kids⟩) results written
            (ready₁.denotes_after lawful tail.reads denotesType)
          simpa [WrittenPart.sigResults, isParam, isResult'] using cons
        · simpa [WrittenPart.sigContexts, notContext] using context
      rename_i notResult
      have notResult' : n.isResult = false := by simpa [AstNode.isResult] using notResult
      split at result
      · rename_i isContext
        split at result
        · cases result
        rename_i noContext
        split at result
        · cases result
        obtain ⟨⟨contextType, r₁⟩, here, more⟩ := ok_of_bind result
        obtain ⟨reads, holds, quiet, denotes⟩ := resolveFirst_ok resolver ready here
        have ready₁ := ready.after reads
        have tail : SigRead scope values working rest { parts with contextType } r₁ parts' r' :=
          readSigParts_spec lawful resolver rest ready₁ more
        refine ⟨reads.trans tail.reads, ?_⟩
        intro plain later
        obtain ⟨⟨params, isParams, denoteParams⟩, variadic, results, context⟩ :=
          tail.denotes (plainAfter reads plain.2.2) (laterAfter reads (notCounted ▸ later.2))
        rw [reads.grows.src] at denoteParams variadic results context
        obtain ⟨t, written, denotesType⟩ := denotes plain.2.1
        have untouched : r₁.params parts.paramCount = r.params parts.paramCount := by
          by_cases first : 0 < parts.paramCount
          · exact (quiet (later.1 (decide_eq_true first) (.inr isContext))).params _
          · rw [show parts.paramCount = 0 by omega]
            rfl
        rw [parts_cons]
        refine ⟨⟨params, ?_, ?_⟩, ?_, ?_, ?_⟩
        · rw [isParams, untouched]
        · simpa [WrittenPart.sigParams, isParam] using denoteParams
        · simpa [WrittenPart.sigParams, isParam] using variadic
        · simpa [WrittenPart.sigResults, notResult'] using results
        · have first : WrittenPart.sigContexts
              (⟨n, kids, n.written r.table.src values kids⟩ :: rest.parts r.table.src values) =
              ⟨n, kids, n.written r.table.src values kids⟩ ::
                WrittenPart.sigContexts (rest.parts r.table.src values) := by
            simp [WrittenPart.sigContexts, isContext]
          rw [first]
          obtain ⟨i, -, isSome⟩ := holds
          cases others : WrittenPart.sigContexts (rest.parts r.table.src values) with
          | nil =>
            rw [others] at context
            refine ⟨by simpa using noContext, t, written, ?_⟩
            rw [show parts'.contextType = contextType from context]
            exact ready₁.denotes_after lawful tail.reads denotesType
          | cons q more' =>
            rw [others] at context
            cases more' with
            | nil =>
              have again : contextType = none := context.1
              rw [isSome] at again
              cases again
            | cons => exact context.elim
      rename_i notContext
      have skip : ∀ parts₁ : SigParts, parts₁.paramCount = parts.paramCount → parts₁.isVariadic = parts.isVariadic →
          parts₁.returnType = parts.returnType → parts₁.contextType = parts.contextType →
          SigRead scope values working rest parts₁ r parts' r' →
          SigRead scope values working (.cons nId n kids rest) parts r parts' r' := by
        intro parts₁ count variadic' return' context' tail
        refine ⟨tail.reads, ?_⟩
        intro plain later
        have spec := tail.denotes plain.2.2 (by rw [count]; exact notCounted ▸ later.2)
        rw [count, variadic', return', context'] at spec
        rw [parts_cons]
        simpa [WrittenPart.sigParams, WrittenPart.sigResults, WrittenPart.sigContexts, isParam, notResult', notContext]
          using spec
      split at result
      · exact skip { parts with hasBody := true } rfl rfl rfl rfl
          (readSigParts_spec lawful resolver rest ready result)
      · exact skip parts rfl rfl rfl rfl (readSigParts_spec lawful resolver rest ready result)

end HopHop
