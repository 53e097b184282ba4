import HopHop.CallTarget

namespace HopHop

section

variable {ownerFnIndex owner : Option Nat} {callNode node targetFnIndex : Nat} {targets targets' : List CallTargetEntry}

theorem findCallTarget_cons (entry : CallTargetEntry) (rest : List CallTargetEntry) :
    findCallTarget (entry :: rest) owner node =
      if entry.isOf owner node then some entry.targetFnIndex else findCallTarget rest owner node := by
  simp only [findCallTarget, List.find?_cons]
  cases entry.isOf owner node <;> rfl

theorem findCallTarget_append :
    findCallTarget (targets ++ targets') owner node =
      (findCallTarget targets owner node).or (findCallTarget targets' owner node) := by
  induction targets with
  | nil => rfl
  | cons entry rest ih =>
    rw [List.cons_append, findCallTarget_cons, findCallTarget_cons, ih]
    split <;> rfl

theorem retarget_none (absent : retarget ownerFnIndex callNode targetFnIndex targets = none) :
    findCallTarget targets ownerFnIndex callNode = none := by
  induction targets with
  | nil => rfl
  | cons entry rest ih =>
    simp only [retarget] at absent
    rw [findCallTarget_cons]
    split at absent
    · cases absent
    · rename_i others
      rw [if_neg others]
      exact ih (by simpa using absent)

/-- A call that is recorded already has the new target then, and the other calls keep theirs. -/
theorem retarget_some (done : retarget ownerFnIndex callNode targetFnIndex targets = some targets') :
    findCallTarget targets' owner node =
      if owner = ownerFnIndex ∧ node = callNode then some targetFnIndex else findCallTarget targets owner node := by
  induction targets generalizing targets' with
  | nil => cases done
  | cons entry rest ih =>
    simp only [retarget] at done
    by_cases here : entry.isOf ownerFnIndex callNode = true
    · rw [if_pos here, Option.some.injEq] at done
      simp only [CallTargetEntry.isOf, decide_eq_true_eq] at here
      rw [← done, findCallTarget_cons, findCallTarget_cons]
      simp only [CallTargetEntry.isOf, here.1, here.2, decide_eq_true_eq]
      by_cases same : owner = ownerFnIndex ∧ node = callNode
      · rw [if_pos same, if_pos ⟨same.2.symm, same.1.symm⟩]
      · have other : ¬ (callNode = node ∧ ownerFnIndex = owner) := fun ⟨sameNode, sameOwner⟩ =>
          same ⟨sameOwner.symm, sameNode.symm⟩
        rw [if_neg same, if_neg other, if_neg other]
    · rw [if_neg here] at done
      obtain ⟨rest', later, isCons⟩ := Option.map_eq_some_iff.mp done
      rw [← isCons, findCallTarget_cons, findCallTarget_cons, ih later]
      by_cases same : owner = ownerFnIndex ∧ node = callNode
      · rw [if_pos same, if_pos same, same.1, same.2, if_neg here]
      · rw [if_neg same, if_neg same]

/-- What is found after a target has been recorded. -/
theorem findCallTarget_record {cap : Nat}
    (recorded : recordCallTarget targets cap ownerFnIndex callNode targetFnIndex = some targets') :
    findCallTarget targets' owner node =
      if owner = ownerFnIndex ∧ node = callNode then some targetFnIndex else findCallTarget targets owner node := by
  simp only [recordCallTarget] at recorded
  split at recorded
  · rename_i done
    rw [← Option.some.inj recorded]
    exact retarget_some done
  · rename_i absent
    split at recorded
    · cases recorded
    · rw [← Option.some.inj recorded, findCallTarget_append, findCallTarget_cons]
      simp only [CallTargetEntry.isOf, decide_eq_true_eq]
      by_cases same : owner = ownerFnIndex ∧ node = callNode
      · rw [if_pos same, same.1, same.2, retarget_none absent]
        simp
      · have other : ¬ (callNode = node ∧ ownerFnIndex = owner) := fun ⟨sameNode, sameOwner⟩ =>
          same ⟨sameOwner.symm, sameNode.symm⟩
        rw [if_neg same, if_neg other]
        simp [findCallTarget]

end

/-- The type of the value that a call may go through. -/
def CalleeForm.valueType : CalleeForm → Option TypeId
  | .ident _ type => type
  | .method _ _ => none
  | .value type => type

/-- What the search for a function of the callee's name comes to. -/
def CallState.resolve (state : CallState) (scope : CallScope TypeId) (expr : CallExpr) :
    CallResult × List (TCFunction TypeId) :=
  match expr.callee with
  | .ident name _ => resolveCallByName scope state.funcs name expr.call
  | .method name receiverPkg => resolveMethodCall scope state.funcs name receiverPkg expr.call
  | .value _ => (.noName, state.funcs)

/-- A call that was accepted, with the state it was checked in. -/
structure AcceptedCall where
  scope : CallScope TypeId
  rest : CallRest
  state : CallState
  expr : CallExpr
  checked : CheckedCall

namespace AcceptedCall

def resolution (accepted : AcceptedCall) : CallResult := (accepted.state.resolve accepted.scope accepted.expr).1

/-- The table of functions behind the search. -/
def funcs (accepted : AcceptedCall) : List (TCFunction TypeId) :=
  (accepted.state.resolve accepted.scope accepted.expr).2

/-- The call goes through a value: no function has the callee's name. -/
def ThroughValue (accepted : AcceptedCall) : Prop := accepted.resolution = .noName

/-- The function that the type of the called value is known to be the type of. -/
def typeFunction (accepted : AcceptedCall) : Option Nat :=
  accepted.expr.callee.valueType.bind { accepted.state with funcs := accepted.funcs }.typeFunction

/-- The call stands at a node, in the body of a function. -/
def isAt (owner : Option Nat) (node : Nat) (accepted : AcceptedCall) : Bool :=
  accepted.state.currentFunctionIndex = owner ∧ accepted.expr.node = node

/-- A value of a function type may be any function of that type. -/
def MayBe (accepted : AcceptedCall) (fnIndex : Nat) : Prop :=
  ∃ calleeType t fn returnType, accepted.expr.callee.valueType = some calleeType ∧
    accepted.state.table.entry calleeType = some t ∧ accepted.funcs[fnIndex]? = some fn ∧
    fn.returnType = some returnType ∧
    accepted.state.table.functionTypeMatchesSignature t returnType
      (fn.params.map fun param => ⟨param.type, param.isConst⟩) fn.variadic = true

/-- The functions that executions of the call may invoke: the one that its name was resolved to, or those that the
called value may be. -/
inductive Invokes (accepted : AcceptedCall) : Nat → Prop
  | named {fnIndex : Nat} (chosen : accepted.resolution = .chosen fnIndex) : Invokes accepted fnIndex
  | value {fnIndex : Nat} (through : accepted.ThroughValue) (mayBe : accepted.MayBe fnIndex) : Invokes accepted fnIndex

end AcceptedCall

/-- The calls of a program that have been accepted, the last one first, with the targets that are recorded. The table
of types and that of functions may change in between. -/
inductive TargetRun : List CallTargetEntry → List AcceptedCall → Prop
  | start : TargetRun [] []
  | next {targets : List CallTargetEntry} {calls : List AcceptedCall} (run : TargetRun targets calls)
      (accepted : AcceptedCall) (state' : CallState) (same : accepted.state.targets = targets)
      (typed : typeExprCall accepted.scope accepted.rest accepted.state accepted.expr = .ok (accepted.checked, state')) :
      TargetRun state'.targets (accepted :: calls)

/-- What a recorded target promises of a call: executions invoke that function and no other, the arguments were checked
against its parameters, and a call through a value has none. -/
structure TargetIsCalled (targets : List CallTargetEntry) (accepted : AcceptedCall) : Prop where
  called : ∀ target, findCallTarget targets accepted.state.currentFunctionIndex accepted.expr.node = some target →
    ∀ fnIndex, accepted.Invokes fnIndex → fnIndex = target
  against : ∀ target, findCallTarget targets accepted.state.currentFunctionIndex accepted.expr.node = some target →
    ∃ fn, accepted.funcs[target]? = some fn ∧ accepted.checked.params = fn.params ∧
      accepted.checked.variadic = fn.variadic
  noneForValue : accepted.ThroughValue →
    findCallTarget targets accepted.state.currentFunctionIndex accepted.expr.node = none

section

variable {rest : CallRest} {scope : CallScope TypeId} {state state' : CallState} {expr : CallExpr} {checked : CheckedCall}

theorem finishNamedCall_ok {fnIndex : Nat} (finished : finishNamedCall rest state expr fnIndex = .ok (checked, state')) :
    ∃ fn, state.funcs[fnIndex]? = some fn ∧ checked.params = fn.params ∧ checked.variadic = fn.variadic ∧
      recordCallTarget state.targets state.targetCap state.currentFunctionIndex expr.node fnIndex =
        some state'.targets := by
  simp only [finishNamedCall] at finished
  cases atIndex : state.funcs[fnIndex]? with
  | none => rw [atIndex] at finished; cases finished
  | some fn =>
    rw [atIndex] at finished
    simp only at finished
    split at finished
    · cases finished
    · split at finished
      · cases finished
      · split at finished
        · cases finished
        · rename_i targets recorded
          cases finished
          exact ⟨fn, rfl, rfl, rfl, recorded⟩

/-- A call through a value records the function that the type of the value is known by. -/
theorem typedCallFromCalleeType_ok {calleeType : TypeId}
    (typed : typedCallFromCalleeType scope rest state expr calleeType = .ok (checked, state')) :
    (match state.typeFunction calleeType with
      | none => some state.targets
      | some fnIndex =>
        recordCallTarget state.targets state.targetCap state.currentFunctionIndex expr.node fnIndex) =
      some state'.targets := by
  simp only [typedCallFromCalleeType] at typed
  split at typed
  · cases typed
  · split at typed
    · cases typed
    · split at typed
      · cases typed
      · rename_i targets recorded
        split at typed
        · cases typed
        · split at typed
          · cases typed
          · cases typed
            exact recorded

end

namespace AcceptedCall

variable {accepted : AcceptedCall} {state' : CallState}

/-- The target that a call records: the function of its name, or the one that the type of the value is known by. -/
def recorded (accepted : AcceptedCall) : Option Nat :=
  match accepted.resolution with
  | .chosen fnIndex => some fnIndex
  | .noName => accepted.typeFunction
  | _ => none

/-- An accepted call was resolved by name, or goes through a value. -/
theorem resolved
    (typed : typeExprCall accepted.scope accepted.rest accepted.state accepted.expr = .ok (accepted.checked, state')) :
    (∃ fnIndex fn, accepted.resolution = .chosen fnIndex ∧ accepted.funcs[fnIndex]? = some fn ∧
      accepted.checked.params = fn.params ∧ accepted.checked.variadic = fn.variadic) ∨ accepted.ThroughValue := by
  simp only [typeExprCall] at typed
  simp only [ThroughValue, resolution, funcs, CallState.resolve]
  cases callee : accepted.expr.callee with
  | ident name type =>
    simp only [callee] at typed ⊢
    cases found : resolveCallByName accepted.scope accepted.state.funcs name accepted.expr.call with
    | mk r funcs =>
      rw [found] at typed
      cases r with
      | chosen fnIndex =>
        obtain ⟨fn, atIndex, params, variadic, _⟩ := finishNamedCall_ok typed
        exact .inl ⟨fnIndex, fn, rfl, atIndex, params, variadic⟩
      | noName => exact .inr rfl
      | _ => cases typed
  | method name receiverPkg =>
    simp only [callee] at typed ⊢
    cases found : resolveMethodCall accepted.scope accepted.state.funcs name receiverPkg accepted.expr.call with
    | mk r funcs =>
      rw [found] at typed
      cases r with
      | chosen fnIndex =>
        obtain ⟨fn, atIndex, params, variadic, _⟩ := finishNamedCall_ok typed
        exact .inl ⟨fnIndex, fn, rfl, atIndex, params, variadic⟩
      | _ => cases typed
  | value type => exact .inr rfl

/-- The targets that are recorded behind a call. -/
theorem targets_ok
    (typed : typeExprCall accepted.scope accepted.rest accepted.state accepted.expr = .ok (accepted.checked, state')) :
    (match accepted.recorded with
      | none => some accepted.state.targets
      | some fnIndex => recordCallTarget accepted.state.targets accepted.state.targetCap
          accepted.state.currentFunctionIndex accepted.expr.node fnIndex) = some state'.targets := by
  simp only [typeExprCall] at typed
  simp only [recorded, typeFunction, resolution, funcs, CallState.resolve]
  cases callee : accepted.expr.callee with
  | ident name type =>
    simp only [callee] at typed ⊢
    cases found : resolveCallByName accepted.scope accepted.state.funcs name accepted.expr.call with
    | mk r funcs =>
      rw [found] at typed
      cases r with
      | chosen fnIndex =>
        obtain ⟨_, _, _, _, record⟩ := finishNamedCall_ok typed
        exact record
      | noName =>
        simp only [callOfValue] at typed
        cases type with
        | none => cases typed
        | some calleeType => exact typedCallFromCalleeType_ok typed
      | _ => cases typed
  | method name receiverPkg =>
    simp only [callee] at typed ⊢
    cases found : resolveMethodCall accepted.scope accepted.state.funcs name receiverPkg accepted.expr.call with
    | mk r funcs =>
      rw [found] at typed
      cases r with
      | chosen fnIndex =>
        obtain ⟨_, _, _, _, record⟩ := finishNamedCall_ok typed
        exact record
      | _ => cases typed
  | value type =>
    simp only [callee, callOfValue] at typed ⊢
    cases type with
    | none => cases typed
    | some calleeType => exact typedCallFromCalleeType_ok typed

/-- A call leaves the targets of other calls, and records its own one if it has one. -/
theorem findCallTarget_ok {owner : Option Nat} {node : Nat}
    (typed : typeExprCall accepted.scope accepted.rest accepted.state accepted.expr = .ok (accepted.checked, state')) :
    findCallTarget state'.targets owner node =
      (if accepted.isAt owner node then accepted.recorded else none).or
        (findCallTarget accepted.state.targets owner node) := by
  have after := targets_ok typed
  simp only [isAt, decide_eq_true_eq]
  cases target : accepted.recorded with
  | none =>
    rw [target] at after
    rw [← Option.some.inj after]
    simp
  | some fnIndex =>
    rw [target] at after
    rw [findCallTarget_record after]
    by_cases here : accepted.state.currentFunctionIndex = owner ∧ accepted.expr.node = node
    · rw [if_pos here, if_pos ⟨here.1.symm, here.2.symm⟩]
      rfl
    · rw [if_neg here, if_neg fun ⟨sameOwner, sameNode⟩ => here ⟨sameOwner.symm, sameNode.symm⟩]
      rfl

end AcceptedCall

/-- After a run, the target of a call is the last one that was recorded for it. -/
theorem TargetRun.findCallTarget_eq {targets : List CallTargetEntry} {calls : List AcceptedCall} {owner : Option Nat}
    {node : Nat} (run : TargetRun targets calls) :
    findCallTarget targets owner node = (calls.filter (AcceptedCall.isAt owner node)).findSome? AcceptedCall.recorded := by
  induction run with
  | start => rfl
  | next run accepted state' same typed ih =>
    rw [AcceptedCall.findCallTarget_ok typed, same, ih, List.filter_cons]
    split
    · rw [List.findSome?_cons]
      cases accepted.recorded <;> rfl
    · rfl

/-- Every call of a run was resolved by name, or goes through a value. -/
theorem TargetRun.resolved {targets : List CallTargetEntry} {calls : List AcceptedCall} (run : TargetRun targets calls)
    {accepted : AcceptedCall} (mem : accepted ∈ calls) :
    (∃ fnIndex fn, accepted.resolution = .chosen fnIndex ∧ accepted.funcs[fnIndex]? = some fn ∧
      accepted.checked.params = fn.params ∧ accepted.checked.variadic = fn.variadic) ∨ accepted.ThroughValue := by
  induction run with
  | start => exact absurd mem List.not_mem_nil
  | next run last state' same typed ih =>
    rcases List.mem_cons.mp mem with isLast | earlier
    · rw [isLast]
      exact AcceptedCall.resolved typed
    · exact ih earlier

/-- Nothing is known of the function that a call goes to: no function has the callee's name, and the type of the called
value is not known to be that of a function. -/
def AcceptedCall.TargetUnknown (accepted : AcceptedCall) : Prop :=
  accepted.ThroughValue ∧ accepted.typeFunction = none

theorem AcceptedCall.recorded_eq_none {accepted : AcceptedCall}
    (resolved : (∃ fnIndex, accepted.resolution = .chosen fnIndex) ∨ accepted.ThroughValue) :
    accepted.recorded = none ↔ accepted.TargetUnknown := by
  rcases resolved with ⟨fnIndex, chosen⟩ | through
  · simp only [recorded, TargetUnknown, ThroughValue, chosen, reduceCtorEq, false_and]
  · simp only [recorded, TargetUnknown, through, true_and]
    rw [ThroughValue] at through
    rw [through]

/-- A function that calls the function it is given, and two functions that it may be given. -/
def applySource : String :=
  "fn inc(x int) int { return x + 1 } fn dec(x int) int { return x - 1 } fn apply(f fn(int) int) int { return f(1) } " ++
    "fn main() { apply(dec) }"

def applyFn (nameStart nameEnd param declNode : Nat) : TCFunction TypeId where
  name := ⟨nameStart, nameEnd⟩
  returnType := some pickInt
  contextType := none
  params := [⟨⟨param, param + 1⟩, pickInt, false⟩]
  declNode := declNode
  templateArgs := []
  templateRootFuncIndex := none
  variadic := false
  template := false
  templateInstance := false

def applyInc : TCFunction TypeId := applyFn 3 6 7 1

def applyDec : TCFunction TypeId := applyFn 38 41 42 9

/-- The type of both functions, which the first one is known to have. -/
def applyFnType : TypeId × TypeTable :=
  (TypeTable.initial (bytesOf applySource) ⟨[], -1⟩ 32).internFunctionType pickInt [⟨pickInt, false⟩] false (some 0) 0 0

def applyState : CallState where
  table := applyFnType.2
  funcs := [applyInc, applyDec]
  targets := []
  targetCap := 32
  currentFunctionIndex := some 2

/-- The argument of the call is a constant, which gets the type that is expected of it. -/
def applyScope : CallScope TypeId where
  src := bytesOf applySource
  types := applyFnType.2.callTypes
  activeExpectedCallType := none
  exprNeedsExpectedType _ := false
  exprIsCompoundTemporary _ := false
  exprIsAssignable _ := false
  typeExpr _ _ := some applyFnType.2.typeUntypedInt
  typeExprExpected _ _ expected := some expected
  evalConstExprNode _ := some true
  findForwardedConstParamCallSpan _ := none
  checkConstBlocksForCall _ _ _ := .passed

/-- The call of the function that is given. -/
def applyExpr : CallExpr where
  node := 30
  calleeNode := 31
  callee := .ident ⟨107, 108⟩ (some applyFnType.1)
  call := ⟨[⟨32, 109, 110, .absent, .absent, false⟩], 0, false⟩

def applyCall : AcceptedCall where
  scope := applyScope
  rest := ⟨fun _ => true, fun _ _ => .ok none⟩
  state := applyState
  expr := applyExpr
  checked := ⟨applyInc.params, false, some pickInt⟩

theorem applyCall_run : TargetRun [⟨30, some 2, 0⟩] [applyCall] := by
  have typed : (typeExprCall applyScope applyCall.rest applyState applyExpr).toOption.map
      (fun result => (result.1, result.2.targets)) = some (applyCall.checked, [⟨30, some 2, 0⟩]) := by decide +kernel
  obtain ⟨⟨checked, state'⟩, accepted, isResult⟩ := Option.map_eq_some_iff.mp typed
  cases isOk : typeExprCall applyScope applyCall.rest applyState applyExpr with
  | error e => rw [isOk] at accepted; cases accepted
  | ok result =>
    rw [isOk] at accepted
    cases accepted
    simp only [Prod.mk.injEq] at isResult
    rw [← isResult.2]
    exact .next .start applyCall state' rfl (isResult.1 ▸ isOk)

theorem applyCall_through : applyCall.ThroughValue := by
  rw [AcceptedCall.ThroughValue]
  decide +kernel

end HopHop
