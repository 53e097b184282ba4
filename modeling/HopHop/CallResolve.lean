import HopHop.CallTemplate
import HopHop.RunningBest

namespace HopHop

/-- `H2TCCostVectorCompare`, on vectors of one length. -/
def costVectorCompare : List UInt8 → List UInt8 → Ordering
  | a :: as, b :: bs => if a < b then .lt else if b < a then .gt else costVectorCompare as bs
  | _, _ => .eq

def costTotal (costs : List UInt8) : Nat := (costs.map UInt8.toNat).sum

/-- A candidate that a call fits, with what it is ranked by. -/
structure Viable (Fn : Type) where
  fn : Fn
  costs : List UInt8
  variadic : Bool
  templateInstance : Bool
  deriving DecidableEq, Repr

/-- What a viable candidate does to the best one before it. -/
def compareViable {Fn : Type} [DecidableEq Fn] (cur best : Viable Fn) : RunningBest.Verdict :=
  let cmp := costVectorCompare cur.costs best.costs
  let level := cmp = .eq ∧ costTotal cur.costs = costTotal best.costs
  if cmp = .lt ∨ (cmp = .eq ∧ costTotal cur.costs < costTotal best.costs)
      ∨ (level ∧ best.variadic ∧ cur.variadic = false)
      ∨ (level ∧ best.templateInstance ∧ cur.templateInstance = false) then .replace
  else if level ∧ cur.fn ≠ best.fn then
    if best.templateInstance = false ∧ cur.templateInstance then .keep
    else if best.variadic = false ∧ cur.variadic then .keep
    else .tie
  else .keep

/-- What the checks of one candidate come to: the whole check ends, the call does not have the candidate's shape, an
argument does not fit it, or it is viable. -/
inductive Judged (α : Type)
  | stopped
  | unmatched (e : CallMapError)
  | rejected (e : CallMapError) (total : Nat) (mutRefTempArgNode : Option Nat)
  | viable (found : α)
  deriving DecidableEq, Repr

def Judged.map {α β : Type} (f : α → β) : Judged α → Judged β
  | .stopped => .stopped
  | .unmatched e => .unmatched e
  | .rejected e total mutRefTempArgNode => .rejected e total mutRefTempArgNode
  | .viable found => .viable (f found)

section

variable {Ty : Type} [DecidableEq Ty] (scope : CallScope Ty)

/-- What is said of an argument that does not convert, which is something only behind the fixed parameters. -/
def variadicArgError (fn : TCFunction Ty) (binding : CallBinding Ty) (p : Nat) (a : CallArgInfo) : CallMapError :=
  if fn.variadic ∧ binding.fixedInputCount ≤ p then
    .atArg (if binding.spreadArgIndex = some p then .VARIADIC_SPREAD_NON_SLICE else .VARIADIC_ARG_TYPE_MISMATCH) a
  else .clear

/-- The type of an argument of a candidate, for a parameter of the given type. -/
def candidateArgType (fn : TCFunction Ty) (binding : CallBinding Ty) (autoRefType : Option Ty) (p : Nat)
    (a : CallArgInfo) (paramType : Ty) (total : Nat) : Except (Judged (List UInt8)) Ty :=
  match autoRefType, p with
  | some argType, 0 => .ok argType
  | _, _ =>
    if scope.types.isMutableRefType paramType ∧ scope.exprIsCompoundTemporary a.exprNode then
      .error (.rejected .clear total (some a.exprNode))
    else if scope.exprNeedsExpectedType a.exprNode then
      match scope.typeExprExpected scope.activeExpectedCallType a.exprNode paramType with
      | none => .error (.rejected (variadicArgError fn binding p a) total none)
      | some argType => .ok argType
    else
      match scope.typeExpr scope.activeExpectedCallType a.exprNode with
      | none => .error .stopped
      | some argType => .ok argType

/-- The costs of the arguments from one on, with the total of those before it. -/
def argCostsFrom (fn : TCFunction Ty) (binding : CallBinding Ty) (autoRefType : Option Ty) :
    Nat → List CallArgInfo → List Ty → Nat → Except (Judged (List UInt8)) (List UInt8)
  | p, a :: args, paramType :: paramTypes, total =>
    match candidateArgType scope fn binding autoRefType p a paramType total with
    | .error judged => .error judged
    | .ok argType =>
      match scope.types.conversionCost paramType argType with
      | none => .error (.rejected (variadicArgError fn binding p a) total none)
      | some cost =>
        match argCostsFrom fn binding autoRefType (p + 1) args paramTypes (total + cost.toNat) with
        | .error judged => .error judged
        | .ok costs => .ok (cost :: costs)
  | _, _, _, _ => .ok []

/-- What is said of an argument of a constant parameter that is not constant. -/
def constParamError (binding : CallBinding Ty) (i p : Nat) (a : CallArgInfo) (param : FnParam Ty) : CallMapError :=
  let code :=
    if binding.isVariadic ∧ binding.spreadArgIndex = some i ∧ p = binding.fixedCount then .CONST_PARAM_SPREAD_NOT_CONST
    else .CONST_PARAM_ARG_NOT_CONST
  let span := (scope.findForwardedConstParamCallSpan a.exprNode).getD (a.start, a.stop)
  if param.name.isPresent then ⟨code, span.1, span.2, param.name.start, param.name.stop⟩
  else ⟨code, span.1, span.2, a.start, a.stop⟩

/-- The loop of `H2TCCheckConstParamArgs`, over the arguments and the parameters they are bound to. -/
def checkConstParamArgsFrom (binding : CallBinding Ty) (params : List (FnParam Ty)) :
    Nat → List CallArgInfo → List Nat → CallCheck
  | i, a :: args, p :: indices =>
    match params[p]? with
    | none => checkConstParamArgsFrom binding params (i + 1) args indices
    | some param =>
      if param.isConst = false then checkConstParamArgsFrom binding params (i + 1) args indices
      else
        match scope.evalConstExprNode a.exprNode with
        | none => .stopped
        | some true => checkConstParamArgsFrom binding params (i + 1) args indices
        | some false => .failed (constParamError scope binding i p a param)
  | _, _, _ => .passed

def checkConstParamArgs (call : CollectedCall) (binding : CallBinding Ty) (params : List (FnParam Ty)) : CallCheck :=
  checkConstParamArgsFrom scope binding params 0 call.args binding.argParamIndices

/-- The checks of a candidate, an ordinary function or an instance. -/
def judgeCandidate (call : CollectedCall) (autoRefType : Option Ty) (fn : TCFunction Ty) : Judged (List UInt8) :=
  match fn.binding scope call with
  | .error e => .unmatched e
  | .ok binding =>
    match argCostsFrom scope fn binding autoRefType 0 call.args binding.argExpectedTypes 0 with
    | .error judged => judged
    | .ok costs =>
      match checkConstParamArgs scope call binding fn.params with
      | .stopped => .stopped
      | .failed e => .rejected e (costTotal costs) none
      | .passed =>
        match scope.checkConstBlocksForCall fn call.args binding with
        | .stopped => .stopped
        | .failed e => .rejected e (costTotal costs) none
        | .passed => .viable costs

end

/-- What has been found of a call so far. The best candidate carries the mark of an ambiguity, the first error the
cost it was found at. -/
structure Search where
  best : Option (Viable Nat × Bool)
  mapError : Option (CallMapError × Nat)
  mutRefTempArgNode : Option Nat
  deriving DecidableEq, Repr

namespace Search

def start : Search := ⟨none, none, none⟩

/-- An error of a candidate that was not even compared, kept when it is the first one. -/
def noteUnmatched (search : Search) (e : CallMapError) : Search :=
  if search.mapError.isNone ∧ e.code ≠ .NONE then { search with mapError := some (e, 0xFFFFFFFF) } else search

/-- An error of a candidate that was compared, kept when it is the first one, or one about constants at less cost. -/
def noteRejected (search : Search) (e : CallMapError) (total : Nat) (mutRefTempArgNode : Option Nat) : Search :=
  let search := { search with mutRefTempArgNode := search.mutRefTempArgNode.or mutRefTempArgNode }
  let cheaper : Bool :=
    match search.mapError with
    | none => true
    | some (_, firstMapErrorCost) =>
      (e.code = .CONST_PARAM_ARG_NOT_CONST ∨ e.code = .CONST_PARAM_SPREAD_NOT_CONST
        ∨ e.code = .CONST_BLOCK_EVAL_FAILED) ∧ total < firstMapErrorCost
  if e.code ≠ .NONE && cheaper then { search with mapError := some (e, total) } else search

def noteViable (search : Search) (v : Viable Nat) : Search :=
  { search with best := RunningBest.step compareViable search.best v }

/-- What is found with one more candidate; nothing when the check ends. -/
def note (search : Search) : Judged (Viable Nat) → Option Search
  | .stopped => none
  | .unmatched e => some (search.noteUnmatched e)
  | .rejected e total mutRefTempArgNode => some (search.noteRejected e total mutRefTempArgNode)
  | .viable v => some (search.noteViable v)

end Search

/-- A call's resolution, in the order of the source's status numbers. -/
inductive CallResult
  | chosen (fnIndex : Nat) | noName | noMatch | ambiguous | mutRefTemp (node : Nat) | inferAmbiguous
  | mapError (e : CallMapError) | stopped
  deriving DecidableEq, Repr

section

variable {Ty : Type} [DecidableEq Ty] (scope : CallScope Ty)

/-- The function that stands for a candidate is found or made, and checked. The table may have grown. -/
def evaluateCandidate (call : CollectedCall) (autoRefType : Option Ty) (funcs : List (TCFunction Ty)) (fnIndex : Nat) :
    Judged (Viable Nat) × List (TCFunction Ty) :=
  match funcs[fnIndex]? with
  | none => (.unmatched .clear, funcs)
  | some candidate =>
    match instantiateAnytypeFunctionForCall scope call autoRefType funcs fnIndex candidate with
    | (.error .stopped, funcs) => (.stopped, funcs)
    | (.error (.unmatched e), funcs) => (.unmatched e, funcs)
    | (.ok candidateFnIndex, funcs) =>
      match funcs[candidateFnIndex]? with
      | none => (.unmatched .clear, funcs)
      | some fn =>
        ((judgeCandidate scope call autoRefType fn).map fun costs =>
          ⟨candidateFnIndex, costs, fn.variadic, fn.templateInstance⟩, funcs)

/-- The loop over the candidates: what is found, `none` when the check ends, and the table. -/
def tryCandidates (call : CollectedCall) (autoRefType : Option Ty) :
    List (TCFunction Ty) → Search → List Nat → Option Search × List (TCFunction Ty)
  | funcs, search, [] => (some search, funcs)
  | funcs, search, fnIndex :: rest =>
    let (judged, funcs) := evaluateCandidate scope call autoRefType funcs fnIndex
    match search.note judged with
    | none => (none, funcs)
    | some search => tryCandidates call autoRefType funcs search rest

/-- The result once all candidates have been gone through. -/
def Search.result (search : Search) (hasExpectedDependentArg : Bool) : CallResult :=
  match search.best, search.mapError, search.mutRefTempArgNode with
  | some (v, false), _, _ => .chosen v.fn
  | some (_, true), _, _ => if hasExpectedDependentArg then .inferAmbiguous else .ambiguous
  | none, some (e, _), _ => .mapError e
  | none, none, some node => .mutRefTemp node
  | none, none, none => .noMatch

/-- The type a first argument has once a reference to it is taken, when the call asks for that. -/
def autoRefType (call : CollectedCall) : Except CallResult (Option Ty) :=
  match call.autoRefFirstArg, call.args.head? with
  | true, some a =>
    if scope.exprIsAssignable a.exprNode then
      match (scope.typeExpr scope.activeExpectedCallType a.exprNode).bind scope.types.internPtrType with
      | none => .error .stopped
      | some ptrType => .ok (some ptrType)
    else .ok none
  | _, _ => .ok none

/-- `H2TCResolveCallFromCandidates`, with the table the resolution leaves. -/
def resolveCallFromCandidates (funcs : List (TCFunction Ty)) (candidates : List Nat) (nameFound : Bool)
    (call : CollectedCall) : CallResult × List (TCFunction Ty) :=
  if nameFound = false then (.noName, funcs)
  else if MAX_CALL_ARGS < call.args.length then (.stopped, funcs)
  else
    match autoRefType scope call with
    | .error r => (r, funcs)
    | .ok autoRef =>
      match tryCandidates scope call autoRef funcs .start candidates with
      | (none, funcs) => (.stopped, funcs)
      | (some search, funcs) =>
        (search.result (call.args.any fun a => scope.exprNeedsExpectedType a.exprNode), funcs)

/-- `H2TCFunctionIsBuiltinQualifiedSlice`. -/
def functionIsBuiltinQualifiedSlice (fn : TCFunction Ty) (name : NameRange) : Bool :=
  name.isPresent ∧ name.stop ≤ scope.src.length ∧ fn.name.isPresent
    ∧ fn.name.stop - fn.name.start = 9 + (name.stop - name.start)
    ∧ fn.name.bytes scope.src = bytesOf "builtin__" ++ name.bytes scope.src

/-- Two types that can each be assigned to the other, or are both absent. -/
def sameOptionalType (a b : Option Ty) : Bool :=
  match a, b with
  | some a, some b => scope.types.canAssign a b && scope.types.canAssign b a
  | none, none => true
  | _, _ => false

/-- `H2TCFunctionIdentityEq`. -/
def functionIdentityEq (a b : TCFunction Ty) : Bool :=
  a.params.length = b.params.length ∧ a.variadic = b.variadic ∧ sameOptionalType scope a.returnType b.returnType
    ∧ sameOptionalType scope a.contextType b.contextType
    ∧ (a.params.zip b.params).all fun pair =>
        scope.types.canAssign pair.1.type pair.2.type && scope.types.canAssign pair.2.type pair.1.type
          && pair.1.isConst == pair.2.isConst

def hasUnqualifiedFunctionIdentity (funcs : List (TCFunction Ty)) (builtinFn : TCFunction Ty) (name : NameRange) :
    Bool :=
  funcs.any fun fn => fn.name.eqSlice scope.src name && functionIdentityEq scope fn builtinFn

/-- The indices of the functions that pass a test, in the order of the table. -/
def functionsWhere (funcs : List (TCFunction Ty)) (test : TCFunction Ty → Bool) : List Nat :=
  (List.range funcs.length).filter fun i => (funcs[i]?).any test

def functionNameEq (name : NameRange) (fn : TCFunction Ty) : Bool := fn.name.eqSlice scope.src name

/-- The functions a call by a name may mean: those of that name, and then the built-in ones behind no other of the
same signature. -/
def callCandidates (funcs : List (TCFunction Ty)) (name : NameRange) : List Nat :=
  functionsWhere funcs (functionNameEq scope name) ++
    functionsWhere funcs fun fn =>
      functionIsBuiltinQualifiedSlice scope fn name && !hasUnqualifiedFunctionIdentity scope funcs fn name

/-- `H2TCGatherCallCandidates`: both loops stop when the table of candidates is full. -/
def gatherCallCandidates (funcs : List (TCFunction Ty)) (name : NameRange) : List Nat :=
  (callCandidates scope funcs name).take MAX_CALL_CANDIDATES

/-- The loop of `H2TCResolveCallByName` over the arguments with explicit names. -/
def adjustFirstPositional (args : List CallArgInfo) (first : Nat) : Nat :=
  let clamped := min first args.length
  let adjusted := clamped + ((args.drop clamped).takeWhile fun a => a.explicitName.isPresent).length
  if args.length ≤ adjusted then first else adjusted

/-- `H2TCResolveCallByName`. -/
def resolveCallByName (funcs : List (TCFunction Ty)) (name : NameRange) (call : CollectedCall) :
    CallResult × List (TCFunction Ty) :=
  let candidates := gatherCallCandidates scope funcs name
  resolveCallFromCandidates scope funcs candidates (!candidates.isEmpty)
    { call with firstPositionalArgIndex := adjustFirstPositional call.args call.firstPositionalArgIndex }

end

end HopHop
