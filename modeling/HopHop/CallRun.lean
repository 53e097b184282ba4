import HopHop.CallSearch

namespace HopHop

section

variable {Ty : Type}

theorem boundParams_length {allowNamedMapping : Bool} {first fixedCount : Nat} {mapped : MappedArgs}
    {paramTypes : List Ty} {i : Nat} {args : List CallArgInfo} {bound : List (Nat × Ty)}
    (made : boundParams allowNamedMapping first fixedCount mapped paramTypes i args = some bound) :
    bound.length = args.length := by
  induction args generalizing i bound with
  | nil =>
    simp only [boundParams, Option.some.injEq] at made
    simp [← made]
  | cons a rest ih =>
    simp only [boundParams] at made
    cases param : boundParam allowNamedMapping first fixedCount mapped i a with
    | none => simp [param] at made
    | some p =>
      cases type : paramTypes[p]? with
      | none => simp [param, type] at made
      | some ty =>
        cases tail : boundParams allowNamedMapping first fixedCount mapped paramTypes (i + 1) rest with
        | none => simp [param, type, tail] at made
        | some more =>
          simp only [param, type, tail, Option.some.injEq] at made
          simp [← made, ih tail]

theorem boundTail_length {fixedCount : Nat} {variadicParamType : Ty} {tail : VariadicTail Ty} {k : Nat}
    {args : List CallArgInfo} {bound : List (Nat × Ty)}
    (made : boundTail fixedCount variadicParamType tail none k args = .ok bound) : bound.length = args.length := by
  induction args generalizing k bound with
  | nil =>
    simp only [boundTail, Except.ok.injEq] at made
    simp [← made]
  | cons a rest ih =>
    simp only [boundTail, Option.isSome_none, Bool.false_eq_true, if_false] at made
    split at made
    · cases made
    · split at made
      · cases made
      · cases more : boundTail fixedCount variadicParamType tail none (k + 1) rest with
        | error e => simp [more] at made
        | ok rest' =>
          simp only [more, Except.ok.injEq] at made
          simp [← made, ih more]

/-- A spread argument is the last of the call. -/
theorem spreadArgIndex_last {args : List CallArgInfo} {j : Nat} (spread : spreadArgIndex args = .ok (some j)) :
    args ≠ [] ∧ j = args.length - 1 := by
  simp only [spreadArgIndex] at spread
  split at spread
  · cases spread
  · simp only [Except.ok.injEq] at spread
    by_cases last : args.getLast?.any CallArgInfo.spread = true
    · simp only [last, if_true, Option.some.injEq] at spread
      refine ⟨?_, spread.symm⟩
      rintro rfl
      simp at last
    · simp only [last] at spread
      cases spread

variable [DecidableEq Ty] {types : CallTypes Ty} {args : List CallArgInfo} {paramTypes : List Ty}

/-- A function that is not variadic has nothing behind its fixed parameters. -/
theorem checkCallShape_fixed {spread : Option Nat} {variadic : Option (Ty × VariadicTail Ty)}
    (shape : checkCallShape types args paramTypes false spread = .ok variadic) : variadic = none := by
  simp only [checkCallShape, if_true] at shape
  split at shape
  · cases shape
  · split at shape
    · cases shape
    · simp only [Except.ok.injEq] at shape
      exact shape.symm

/-- A variadic function has something behind its fixed parameters, and a spread argument is the only one there. -/
theorem checkCallShape_variadic {spread : Option Nat} {variadic : Option (Ty × VariadicTail Ty)}
    (shape : checkCallShape types args paramTypes true spread = .ok variadic) :
    variadic.isSome ∧ ∀ j, spread = some j → j < args.length → args.length = paramTypes.length - 1 + 1 := by
  simp only [checkCallShape, Bool.true_eq_false, if_false] at shape
  cases last : paramTypes.getLast? with
  | none => simp [last] at shape
  | some variadicParamType =>
    cases tail : variadicTail types variadicParamType with
    | none => simp [last, tail] at shape
    | some tail =>
      simp only [last, tail] at shape
      cases arg : spread.bind (args[·]?) with
      | some a =>
        simp only [arg] at shape
        by_cases count : args.length = paramTypes.length - 1 + 1
        · split at shape
          · cases shape
          · simp only [Except.ok.injEq] at shape
            exact ⟨by simp [← shape], fun _ _ _ => count⟩
        · rw [if_pos (Or.inl count)] at shape
          cases shape
      | none =>
        simp only [arg] at shape
        have noSpread : ∀ j, spread = some j → j < args.length → args.length = paramTypes.length - 1 + 1 := by
          intro j isSpread inside
          rw [isSpread, Option.bind_some, List.getElem?_eq_getElem inside] at arg
          cases arg
        refine ⟨?_, noSpread⟩
        split at shape
        · cases shape
        · split at shape
          · split at shape
            · cases shape
            · simp only [Except.ok.injEq] at shape
              simp [← shape]
          · simp only [Except.ok.injEq] at shape
            simp [← shape]

/-- A binding has an expected type for every argument. -/
theorem prepareCallBinding_length {src : List UInt8} {names : List NameRange} {isVariadic allowNamedMapping : Bool}
    {first : Nat} {binding : CallBinding Ty}
    (made : prepareCallBinding types src args names paramTypes isVariadic allowNamedMapping first = .ok binding) :
    binding.argExpectedTypes.length = args.length := by
  simp only [prepareCallBinding] at made
  split at made
  · cases made
  · cases spread : spreadArgIndex args with
    | error e => simp [spread] at made
    | ok spreadIndex =>
      simp only [spread] at made
      cases shape : checkCallShape types args paramTypes isVariadic spreadIndex with
      | error e => simp [shape] at made
      | ok variadic =>
        simp only [shape] at made
        split at made
        · cases made
        · split at made
          · cases made
          · rename_i fixedBound fixed
            have fixedLength := boundParams_length fixed
            split at made
            · cases made
            · rename_i tailBound tail
              simp only [Except.ok.injEq] at made
              rw [← made]
              simp only [List.length_map, List.length_append, fixedLength, List.length_take]
              cases isVariadic with
              | false =>
                rw [checkCallShape_fixed shape] at tail
                simp only [Except.ok.injEq] at tail
                simp [← tail]
              | true =>
                obtain ⟨isSome, onlyOne⟩ := checkCallShape_variadic shape
                obtain ⟨⟨variadicParamType, rest⟩, rfl⟩ := Option.isSome_iff_exists.mp isSome
                cases spreadIndex with
                | none =>
                  simp only [if_true] at tail ⊢
                  rw [boundTail_length tail, List.length_drop]
                  omega
                | some j =>
                  obtain ⟨nonempty, last⟩ := spreadArgIndex_last spread
                  have positive := List.length_pos_iff.mpr nonempty
                  have count := onlyOne j rfl (by omega)
                  simp only [if_true] at tail ⊢
                  cases behind : args.drop (paramTypes.length - 1) with
                  | nil =>
                    have length := congrArg List.length behind
                    simp only [List.length_drop, List.length_nil] at length
                    omega
                  | cons a more =>
                    rw [behind] at tail
                    simp only [boundTail, Option.isSome_some, if_true, Except.ok.injEq] at tail
                    rw [← tail]
                    simp only [List.length_singleton]
                    omega

end

section

variable {Ty : Type} {scope : CallScope Ty}

theorem candidateArgType_error {fn : TCFunction Ty} {binding : CallBinding Ty} {autoRef : Option Ty} {p : Nat}
    {a : CallArgInfo} {paramType : Ty} {total : Nat} {judged : Judged (List UInt8)}
    (failed : candidateArgType scope fn binding autoRef p a paramType total = .error judged) :
    judged.viable? = none := by
  simp only [candidateArgType] at failed
  split at failed
  · cases failed
  · split at failed
    · cases failed; rfl
    · split at failed
      · split at failed <;> cases failed
        rfl
      · split at failed <;> cases failed
        rfl

/-- A candidate whose arguments do not all convert is not viable. -/
theorem argCostsFrom_error {fn : TCFunction Ty} {binding : CallBinding Ty} {autoRef : Option Ty} {p : Nat}
    {args : List CallArgInfo} {paramTypes : List Ty} {total : Nat} {judged : Judged (List UInt8)}
    (failed : argCostsFrom scope fn binding autoRef p args paramTypes total = .error judged) :
    judged.viable? = none := by
  induction args generalizing p paramTypes total with
  | nil => simp [argCostsFrom] at failed
  | cons a rest ih =>
    cases paramTypes with
    | nil => simp [argCostsFrom] at failed
    | cons paramType more =>
      simp only [argCostsFrom] at failed
      cases typed : candidateArgType scope fn binding autoRef p a paramType total with
      | error early =>
        simp only [typed, Except.error.injEq] at failed
        exact failed ▸ candidateArgType_error typed
      | ok argType =>
        simp only [typed] at failed
        split at failed
        · cases failed; rfl
        · split at failed
          · rename_i later
            simp only [Except.error.injEq] at failed
            rw [failed] at later
            exact ih later
          · cases failed

theorem argCostsFrom_length {fn : TCFunction Ty} {binding : CallBinding Ty} {autoRef : Option Ty} {p : Nat}
    {args : List CallArgInfo} {paramTypes : List Ty} {total : Nat} {costs : List UInt8}
    (made : argCostsFrom scope fn binding autoRef p args paramTypes total = .ok costs)
    (sameLength : paramTypes.length = args.length) : costs.length = args.length := by
  induction args generalizing p paramTypes total costs with
  | nil =>
    simp only [argCostsFrom, Except.ok.injEq] at made
    simp [← made]
  | cons a rest ih =>
    cases paramTypes with
    | nil => simp at sameLength
    | cons paramType more =>
      simp only [List.length_cons, Nat.add_right_cancel_iff] at sameLength
      simp only [argCostsFrom] at made
      split at made
      · cases made
      · split at made
        · cases made
        · split at made
          · cases made
          · rename_i tail later
            simp only [Except.ok.injEq] at made
            simp [← made, ih later sameLength]

variable [DecidableEq Ty]

/-- A viable candidate has a cost for every argument. -/
theorem judgeCandidate_length {call : CollectedCall} {autoRef : Option Ty} {fn : TCFunction Ty} {costs : List UInt8}
    (viable : judgeCandidate scope call autoRef fn = .viable costs) : costs.length = call.args.length := by
  simp only [judgeCandidate] at viable
  cases bound : fn.binding scope call with
  | error e => simp [bound] at viable
  | ok binding =>
    simp only [bound] at viable
    have sameLength := prepareCallBinding_length bound
    cases made : argCostsFrom scope fn binding autoRef 0 call.args binding.argExpectedTypes 0 with
    | error judged =>
      simp only [made] at viable
      have none' := argCostsFrom_error made
      simp [viable, Judged.viable?] at none'
    | ok found =>
      have length := argCostsFrom_length made sameLength
      simp only [made] at viable
      split at viable
      · cases viable
      · cases viable
      · split at viable
        · cases viable
        · cases viable
        · simp only [Judged.viable.injEq] at viable
          rw [← viable, length]

end

/-- The function a call goes to, told apart from others whatever the order they were made in: one that was there before
the call, or the instance the call makes of a template. -/
inductive CallTarget
  | function (fnIndex : Nat) | newInstance (templateIndex : Nat)
  deriving DecidableEq, Repr

section

variable {Ty : Type} [DecidableEq Ty] (scope : CallScope Ty)

/-- The function at an index of the table a call leaves, for a table of the given length before the call. -/
def targetOf (before : Nat) (funcs : List (TCFunction Ty)) (fnIndex : Nat) : CallTarget :=
  if fnIndex < before then .function fnIndex
  else .newInstance ((funcs[fnIndex]?.bind TCFunction.templateRootFuncIndex).getD fnIndex)

/-- What a candidate comes to when it is the first one to be tried. -/
def rankCandidate (call : CollectedCall) (autoRef : Option Ty) (funcs : List (TCFunction Ty)) (fnIndex : Nat) :
    Judged (Viable CallTarget) :=
  let tried := evaluateCandidate scope call autoRef funcs fnIndex
  tried.1.map (Viable.mapFn (targetOf funcs.length tried.2))

/-- What all candidates of a list come to, each tried on the table the ones before it leave. -/
def evaluateAll (call : CollectedCall) (autoRef : Option Ty) :
    List (TCFunction Ty) → List Nat → List (Judged (Viable Nat)) × List (TCFunction Ty)
  | funcs, [] => ([], funcs)
  | funcs, fnIndex :: rest =>
    let tried := evaluateCandidate scope call autoRef funcs fnIndex
    let later := evaluateAll call autoRef tried.2 rest
    (tried.1 :: later.1, later.2)

/-- The loop over the candidates notes them one after the other. -/
theorem tryCandidates_eq (call : CollectedCall) (autoRef : Option Ty) (funcs : List (TCFunction Ty)) (search : Search)
    (candidates : List Nat) :
    match search.noteAll (evaluateAll scope call autoRef funcs candidates).1 with
    | none => (tryCandidates scope call autoRef funcs search candidates).1 = none
    | some found => tryCandidates scope call autoRef funcs search candidates =
        (some found, (evaluateAll scope call autoRef funcs candidates).2) := by
  induction candidates generalizing funcs search with
  | nil => rfl
  | cons fnIndex rest ih =>
    simp only [evaluateAll, Search.noteAll, tryCandidates]
    cases noted : search.note (evaluateCandidate scope call autoRef funcs fnIndex).1 with
    | none => rfl
    | some mid => exact ih (evaluateCandidate scope call autoRef funcs fnIndex).2 mid

/-- The function that stands for a candidate: one of the table, or an instance that is still to be added. -/
def standIn (call : CollectedCall) (autoRef : Option Ty) (funcs : List (TCFunction Ty)) (fnIndex : Nat)
    (fn : TCFunction Ty) : Except NoInstance (Nat ⊕ TCFunction Ty) :=
  if fn.template = false ∨ fn.templateInstance then .ok (.inl fnIndex)
  else if MAX_CALL_ARGS < fn.params.length ∨ MAX_TEMPLATE_ARGS < fn.templateArgs.length then .error .stopped
  else if fn.needsInstance scope = false then .ok (.inl fnIndex)
  else
    match instanceKey scope call autoRef fn with
    | .error e => .error e
    | .ok key =>
      match funcs.findIdx? (fn.isInstanceOf key) with
      | some j => .ok (.inl j)
      | none => .ok (.inr (fn.newInstance scope.types fnIndex key))

variable {scope} {call : CollectedCall} {autoRef : Option Ty} {funcs : List (TCFunction Ty)} {fnIndex : Nat}
  {fn : TCFunction Ty}

theorem instantiate_eq (funcs : List (TCFunction Ty)) (fnIndex : Nat) (fn : TCFunction Ty) :
    instantiateAnytypeFunctionForCall scope call autoRef funcs fnIndex fn =
      match standIn scope call autoRef funcs fnIndex fn with
      | .error e => (.error e, funcs)
      | .ok (.inl j) => (.ok j, funcs)
      | .ok (.inr g) => (.ok funcs.length, funcs ++ [g]) := by
  simp only [instantiateAnytypeFunctionForCall, standIn]
  split
  · rfl
  · split
    · rfl
    · split
      · rfl
      · cases instanceKey scope call autoRef fn with
        | error e => rfl
        | ok key => cases found : funcs.findIdx? (fn.isInstanceOf key) <;> simp only [found]

/-- A function of the table that stands for a candidate is at an index of the table. -/
theorem standIn_bound {j : Nat} (inTable : fnIndex < funcs.length)
    (stands : standIn scope call autoRef funcs fnIndex fn = .ok (.inl j)) : j < funcs.length := by
  simp only [standIn] at stands
  split at stands
  · cases stands; exact inTable
  · split at stands
    · cases stands
    · split at stands
      · cases stands; exact inTable
      · split at stands
        · cases stands
        · split at stands
          · rename_i found
            cases stands
            exact (List.findIdx?_eq_some_iff_getElem.mp found).1
          · cases stands

/-- An instance that is to be added belongs to the candidate, which is no instance itself. -/
theorem standIn_new {g : TCFunction Ty} (stands : standIn scope call autoRef funcs fnIndex fn = .ok (.inr g)) :
    g.templateInstance = true ∧ g.templateRootFuncIndex = some fnIndex ∧ g.declNode = fn.declNode
      ∧ fn.templateInstance = false := by
  simp only [standIn] at stands
  split at stands
  · cases stands
  · rename_i isTemplate
    split at stands
    · cases stands
    · split at stands
      · cases stands
      · split at stands
        · cases stands
        · split at stands
          · cases stands
          · cases stands
            refine ⟨rfl, rfl, rfl, ?_⟩
            by_contra isInstance
            exact isTemplate (.inr (by simpa using isInstance))

/-- Instances of other declarations do not stand for a candidate. -/
theorem standIn_append {news : List (TCFunction Ty)} (others : ∀ g ∈ news, g.declNode ≠ fn.declNode) :
    standIn scope call autoRef (funcs ++ news) fnIndex fn = standIn scope call autoRef funcs fnIndex fn := by
  simp only [standIn]
  split
  · rfl
  · split
    · rfl
    · split
      · rfl
      · cases instanceKey scope call autoRef fn with
        | error e => rfl
        | ok key =>
          have noneNew : news.findIdx? (fn.isInstanceOf key) = none := by
            rw [List.findIdx?_eq_none_iff]
            intro g mem
            simp [TCFunction.isInstanceOf, others g mem]
          simp only [List.findIdx?_append, noneNew]
          cases funcs.findIdx? (fn.isInstanceOf key) <;> simp

/-- What a candidate comes to, in terms of the function that stands for it. -/
def judgeStandIn (scope : CallScope Ty) (call : CollectedCall) (autoRef : Option Ty) {Fn : Type} (name : Fn)
    (fn : TCFunction Ty) : Judged (Viable Fn) :=
  (judgeCandidate scope call autoRef fn).map fun costs => ⟨name, costs, fn.variadic, fn.templateInstance⟩

theorem judgeStandIn_map {Fn Fn' : Type} (f : Fn → Fn') (name : Fn) (fn : TCFunction Ty) :
    (judgeStandIn scope call autoRef name fn).map (Viable.mapFn f) = judgeStandIn scope call autoRef (f name) fn := by
  simp only [judgeStandIn]
  cases judgeCandidate scope call autoRef fn <;> rfl

/-- A viable candidate is known by the name it was judged under, has the form of its function and a cost for every
argument. -/
theorem judgeStandIn_viable {Fn : Type} {name : Fn} {v : Viable Fn}
    (viable : judgeStandIn scope call autoRef name fn = .viable v) :
    v.fn = name ∧ v.variadic = fn.variadic ∧ v.costs.length = call.args.length := by
  simp only [judgeStandIn] at viable
  cases judged : judgeCandidate scope call autoRef fn with
  | viable costs =>
    rw [judged] at viable
    cases viable
    exact ⟨rfl, rfl, judgeCandidate_length judged⟩
  | stopped => rw [judged] at viable; cases viable
  | unmatched e => rw [judged] at viable; cases viable
  | rejected e total node => rw [judged] at viable; cases viable

theorem evaluateCandidate_error {e : NoInstance} (atIndex : funcs[fnIndex]? = some fn)
    (stands : standIn scope call autoRef funcs fnIndex fn = .error e) :
    evaluateCandidate scope call autoRef funcs fnIndex =
      (match e with | .stopped => .stopped | .unmatched e => .unmatched e, funcs) := by
  simp only [evaluateCandidate, atIndex, instantiate_eq, stands]
  cases e <;> rfl

theorem evaluateCandidate_old {j : Nat} {g : TCFunction Ty} (atIndex : funcs[fnIndex]? = some fn)
    (stands : standIn scope call autoRef funcs fnIndex fn = .ok (.inl j)) (atJ : funcs[j]? = some g) :
    evaluateCandidate scope call autoRef funcs fnIndex = (judgeStandIn scope call autoRef j g, funcs) := by
  simp only [evaluateCandidate, atIndex, instantiate_eq, stands, atJ, judgeStandIn]

theorem evaluateCandidate_new {g : TCFunction Ty} (atIndex : funcs[fnIndex]? = some fn)
    (stands : standIn scope call autoRef funcs fnIndex fn = .ok (.inr g)) :
    evaluateCandidate scope call autoRef funcs fnIndex =
      (judgeStandIn scope call autoRef funcs.length g, funcs ++ [g]) := by
  simp only [evaluateCandidate, atIndex, instantiate_eq, stands, judgeStandIn, List.getElem?_concat_length]

end

end HopHop
