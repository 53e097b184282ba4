import HopHop.CallHistory

namespace HopHop

/-- `H2TCCallTarget`: the function that a call in the body of a function goes to. -/
structure CallTargetEntry where
  callNode : Nat
  ownerFnIndex : Option Nat
  targetFnIndex : Nat
  deriving DecidableEq, Repr

/-- An entry is the one of a call. -/
def CallTargetEntry.isOf (ownerFnIndex : Option Nat) (callNode : Nat) (entry : CallTargetEntry) : Bool :=
  entry.callNode = callNode ∧ entry.ownerFnIndex = ownerFnIndex

/-- The loop of `H2TCRecordCallTarget`: a call that is recorded already gets the new target. -/
def retarget (ownerFnIndex : Option Nat) (callNode targetFnIndex : Nat) : List CallTargetEntry → Option (List CallTargetEntry)
  | [] => none
  | entry :: rest =>
    if entry.isOf ownerFnIndex callNode then some ({ entry with targetFnIndex } :: rest)
    else (retarget ownerFnIndex callNode targetFnIndex rest).map (entry :: ·)

/-- `H2TCRecordCallTarget`. -/
def recordCallTarget (targets : List CallTargetEntry) (cap : Nat) (ownerFnIndex : Option Nat)
    (callNode targetFnIndex : Nat) : Option (List CallTargetEntry) :=
  match retarget ownerFnIndex callNode targetFnIndex targets with
  | some targets => some targets
  | none => if cap ≤ targets.length then none else some (targets ++ [{ callNode, ownerFnIndex, targetFnIndex }])

/-- `H2TCFindCallTarget`. -/
def findCallTarget (targets : List CallTargetEntry) (ownerFnIndex : Option Nat) (callNode : Nat) : Option Nat :=
  (targets.find? (CallTargetEntry.isOf ownerFnIndex callNode)).map CallTargetEntry.targetFnIndex

/-- Why a call is refused: the error has been reported already, or it is reported at a node, at a range or as an
error of the arguments. -/
inductive CallFailure
  | reported
  | atNode (code : DiagCode) (node : Nat)
  | atSpan (code : DiagCode) (start stop : Nat)
  | args (e : CallMapError)
  deriving DecidableEq, Repr

/-- The callee of a call: an identifier, a method of a receiver whose type may belong to a package, or any other
expression, a field among them. An identifier and an expression come with their type, where they have one. -/
inductive CalleeForm
  | ident (name : NameRange) (type : Option TypeId)
  | method (name : NameRange) (receiverPkg : Option NameRange)
  | value (type : Option TypeId)
  deriving DecidableEq, Repr

/-- A call expression: its node, the one of its callee, and its arguments. -/
structure CallExpr where
  node : Nat
  calleeNode : Nat
  callee : CalleeForm
  call : CollectedCall
  deriving DecidableEq, Repr

/-- The part of the checker's state that a call reads and writes. -/
structure CallState where
  table : TypeTable
  funcs : List (TCFunction TypeId)
  targets : List CallTargetEntry
  targetCap : Nat
  currentFunctionIndex : Option Nat

/-- What the rest of the checker says about a call once its function is known: whether the context it needs is there,
and the type it has instead of the declared one, where that depends on the argument. -/
structure CallRest where
  validateCallContextRequirements : Option TypeId → Bool
  dependentPtrReturnForCall : TCFunction TypeId → Nat → Except Unit (Option TypeId)

/-- What a call that is accepted was checked against. -/
structure CheckedCall where
  params : List (FnParam TypeId)
  variadic : Bool
  type : Option TypeId
  deriving DecidableEq, Repr

section

variable (scope : CallScope TypeId) (rest : CallRest)

/-- The error a call by name ends with. -/
def CallResult.failure (name : NameRange) : CallResult → CallFailure
  | .noMatch => .atSpan .NO_MATCHING_OVERLOAD name.start name.stop
  | .ambiguous => .atSpan .AMBIGUOUS_CALL name.start name.stop
  | .mutRefTemp node => .atNode .COMPOUND_MUT_REF_TEMPORARY node
  | .inferAmbiguous => .atSpan .COMPOUND_INFER_AMBIGUOUS name.start name.stop
  | .mapError e => .args e
  | .noName => .atSpan .UNKNOWN_SYMBOL name.start name.stop
  | .chosen _ | .stopped => .reported

/-- `H2TCNameEqPkgPrefixedMethod`. -/
def nameEqPkgPrefixedMethod (pkg method : NameRange) (fn : TCFunction TypeId) : Bool :=
  fn.name.start ≤ fn.name.stop ∧ pkg.start ≤ pkg.stop ∧ method.start ≤ method.stop
    ∧ fn.name.bytes scope.src = pkg.bytes scope.src ++ bytesOf "__" ++ method.bytes scope.src

/-- `H2TCResolveCallByPkgMethod`. -/
def resolveCallByPkgMethod (funcs : List (TCFunction TypeId)) (pkg method : NameRange) (call : CollectedCall) :
    CallResult × List (TCFunction TypeId) :=
  let candidates := (functionsWhere funcs (nameEqPkgPrefixedMethod scope pkg method)).take MAX_CALL_CANDIDATES
  resolveCallFromCandidates scope funcs candidates (!candidates.isEmpty)
    { call with firstPositionalArgIndex := adjustFirstPositional call.args call.firstPositionalArgIndex }

/-- A resolution is tried again with a reference to the receiver where the receiver itself does not fit. -/
def withAutoRef (resolve : List (TCFunction TypeId) → CollectedCall → CallResult × List (TCFunction TypeId))
    (funcs : List (TCFunction TypeId)) (call : CollectedCall) : CallResult × List (TCFunction TypeId) :=
  match resolve funcs { call with firstPositionalArgIndex := 1, autoRefFirstArg := false } with
  | (.noMatch, funcs) | (.mapError _, funcs) =>
    resolve funcs { call with firstPositionalArgIndex := 1, autoRefFirstArg := true }
  | resolved => resolved

/-- The result of a call of a method, from that of the functions of its name and that of the package's functions. -/
def CallResult.orPkg : CallResult → CallResult → CallResult
  | _, .chosen fnIndex => .chosen fnIndex
  | .noMatch, .noName | .noMatch, .noMatch => .noMatch
  | r, .noName => r
  | _, r => r

/-- The resolution of a call of a method. -/
def resolveMethodCall (funcs : List (TCFunction TypeId)) (name : NameRange) (receiverPkg : Option NameRange)
    (call : CollectedCall) : CallResult × List (TCFunction TypeId) :=
  let (byName, funcs) := withAutoRef (fun funcs call => resolveCallByName scope funcs name call) funcs call
  match byName, receiverPkg with
  | .noName, some pkg | .noMatch, some pkg =>
    let (byPkg, funcs) := withAutoRef (fun funcs call => resolveCallByPkgMethod scope funcs pkg name call) funcs call
    (byName.orPkg byPkg, funcs)
  | _, _ => (byName, funcs)

/-- The type of a call of a known function. -/
def callType (fn : TCFunction TypeId) (returnType : Option TypeId) (firstArg : Option Nat) :
    Except CallFailure (Option TypeId) :=
  match firstArg with
  | none => .ok returnType
  | some node =>
    match rest.dependentPtrReturnForCall fn node with
    | .error _ => .error .reported
    | .ok dependentReturnType => .ok (dependentReturnType.or returnType)

/-- The end of a call whose function was found by name. -/
def finishNamedCall (state : CallState) (expr : CallExpr) (fnIndex : Nat) : Except CallFailure (CheckedCall × CallState) :=
  match state.funcs[fnIndex]? with
  | none => .error .reported
  | some fn =>
    match callType rest fn fn.returnType (expr.call.args.head?.map CallArgInfo.exprNode) with
    | .error e => .error e
    | .ok type =>
      if rest.validateCallContextRequirements fn.contextType = false then .error .reported
      else
        match recordCallTarget state.targets state.targetCap state.currentFunctionIndex expr.node fnIndex with
        | none => .error (.atNode .ARENA_OOM expr.node)
        | some targets => .ok ({ params := fn.params, variadic := fn.variadic, type }, { state with targets })

/-- The checks of one argument of a call through a value. -/
def checkValueArg (isVariadic : Bool) (binding : CallBinding TypeId) (nodeId p : Nat) (a : CallArgInfo)
    (paramType : TypeId) : Option CallFailure :=
  if paramType = none then some (.atNode .ARITY_MISMATCH nodeId)
  else
    match scope.typeExprExpected scope.activeExpectedCallType a.exprNode paramType with
    | none => some .reported
    | some argType =>
      if isVariadic ∧ binding.spreadArgIndex = some p ∧ binding.variadicParamType = some scope.types.anytype
          ∧ scope.types.spreadPack argType = none then some (.atNode .ANYTYPE_SPREAD_REQUIRES_PACK a.exprNode)
      else if scope.types.isMutableRefType paramType ∧ scope.exprIsCompoundTemporary a.exprNode then
        some (.atNode .COMPOUND_MUT_REF_TEMPORARY a.exprNode)
      else if scope.types.canAssign paramType argType then none
      else if isVariadic ∧ binding.fixedInputCount ≤ p then
        some (.atNode
          (if binding.spreadArgIndex = some p then .VARIADIC_SPREAD_NON_SLICE else .VARIADIC_ARG_TYPE_MISMATCH) a.exprNode)
      else some (.atNode .TYPE_MISMATCH a.exprNode)

/-- The loop over the arguments of a call through a value, up to the first error. -/
def checkValueArgsFrom (isVariadic : Bool) (binding : CallBinding TypeId) (nodeId : Nat) :
    Nat → List CallArgInfo → List TypeId → Option CallFailure
  | p, a :: args, paramType :: paramTypes =>
    match checkValueArg scope isVariadic binding nodeId p a paramType with
    | some e => some e
    | none => checkValueArgsFrom isVariadic binding nodeId (p + 1) args paramTypes
  | _, _, _ => none

/-- The parameters that a call through a value is checked against: those of the function that is taken for the target,
where it has their number, or those of the type, which have no names. -/
def valueParams (sig : List FuncParam) (isVariadic : Bool) (target : Option (TCFunction TypeId)) : List (FnParam TypeId) :=
  match target with
  | some fn =>
    if fn.params.length = sig.length ∧ fn.variadic = isVariadic then
      List.zipWith (fun named param => { named with type := param.typeId }) fn.params sig
    else sig.map fun param => ⟨.absent, param.typeId, param.isConst⟩
  | none => sig.map fun param => ⟨.absent, param.typeId, param.isConst⟩

/-- The arguments of a call through a value, bound to the parameters they are checked against. -/
def bindValueCall (expr : CallExpr) (params : List (FnParam TypeId)) (isVariadic : Bool) :
    Except CallFailure (CallBinding TypeId) :=
  let hasParamNames := (params.drop 1).all fun param => param.name.isPresent
  match prepareCallBinding scope.types scope.src expr.call.args (params.map FnParam.name) (params.map FnParam.type)
      isVariadic hasParamNames 0 with
  | .error e => .error (if e.code = .NONE then .atNode .ARITY_MISMATCH expr.node else .args e)
  | .ok binding =>
    match checkValueArgsFrom scope isVariadic binding expr.node 0 expr.call.args binding.argExpectedTypes with
    | some e => .error e
    | none =>
      match checkConstParamArgs scope expr.call binding params with
      | .stopped => .error .reported
      | .failed e => .error (.args e)
      | .passed => .ok binding

/-- The function that a function type is known to be the type of, if it is one of the table. -/
def CallState.typeFunction (state : CallState) (calleeType : TypeId) : Option Nat :=
  ((state.table.entry calleeType).bind TCType.funcIndex).filter fun fnIndex => fnIndex < state.funcs.length

/-- The part of `H2TCTypeExpr_CALL` behind `typed_call_from_callee_type`. -/
def typedCallFromCalleeType (state : CallState) (expr : CallExpr) (calleeType : TypeId) :
    Except CallFailure (CheckedCall × CallState) :=
  match (state.table.entry calleeType).filter (·.kind = .FUNCTION) with
  | none => .error (.atNode .NOT_CALLABLE expr.calleeNode)
  | some t =>
    let sig := state.table.componentsOf t
    let isVariadic := t.flags.functionVariadic
    if isVariadic = false ∧ expr.call.args.length ≠ sig.length
        ∨ isVariadic ∧ expr.call.args.length < sig.length - 1 then .error (.atNode .ARITY_MISMATCH expr.node)
    else
      let fnIndexForDependent := state.typeFunction calleeType
      let recorded : Option (List CallTargetEntry) := match fnIndexForDependent with
        | none => some state.targets
        | some fnIndex =>
          recordCallTarget state.targets state.targetCap state.currentFunctionIndex expr.node fnIndex
      match recorded with
      | none => .error (.atNode .ARENA_OOM expr.node)
      | some targets =>
        let target := fnIndexForDependent.bind (state.funcs[·]?)
        let params := valueParams sig isVariadic target
        match bindValueCall scope expr params isVariadic with
        | .error e => .error e
        | .ok binding =>
          let type : Except CallFailure (Option TypeId) := match target with
            | none => .ok (some t.baseType)
            | some fn => callType rest fn (some t.baseType) binding.fixedMappedArgExprNodes.head?.join
          match type with
          | .error e => .error e
          | .ok type => .ok ({ params, variadic := isVariadic, type }, { state with targets })

/-- A call of a callee that has a type, or has none. -/
def callOfValue (state : CallState) (expr : CallExpr) (type : Option TypeId) : Except CallFailure (CheckedCall × CallState) :=
  match type with
  | none => .error .reported
  | some calleeType => typedCallFromCalleeType scope rest state expr calleeType

/-- `H2TCTypeExpr_CALL`, for callees other than the built-in ones. A call by a name that no function has goes through
the value of that name. -/
def typeExprCall (state : CallState) (expr : CallExpr) : Except CallFailure (CheckedCall × CallState) :=
  match expr.callee with
  | .ident name type =>
    match resolveCallByName scope state.funcs name expr.call with
    | (.chosen fnIndex, funcs) => finishNamedCall rest { state with funcs } expr fnIndex
    | (.noName, funcs) => callOfValue scope rest { state with funcs } expr type
    | (r, _) => .error (r.failure name)
  | .method name receiverPkg =>
    match resolveMethodCall scope state.funcs name receiverPkg expr.call with
    | (.chosen fnIndex, funcs) => finishNamedCall rest { state with funcs } expr fnIndex
    | (r, _) => .error (r.failure name)
  | .value type => callOfValue scope rest state expr type

end

end HopHop
