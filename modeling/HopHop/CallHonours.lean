import HopHop.CallBound
import HopHop.CallTypes
import HopHop.OverloadContract

namespace HopHop

section

variable {Ty : Type} [DecidableEq Ty] {scope : CallScope Ty} {fn : TCFunction Ty} {call : CollectedCall}
  {binding : CallBinding Ty}

/-- The call that the candidates are tried with: the first positional argument is sought behind the named ones. -/
def CollectedCall.adjusted (call : CollectedCall) : CollectedCall :=
  { call with firstPositionalArgIndex := adjustFirstPositional call.args call.firstPositionalArgIndex }

variable (scope fn call binding) in
/-- A binding that honours the names of the call. The positional prefix is `firstParam` and the underscore-named
parameters after it: it begins with the first parameter, or with the one behind the receiver's. -/
structure HonoursNames (firstParam : Nat) : Prop where
  named : ∀ (i : Nat) (a : CallArgInfo), call.args[i]? = some a → a.explicitName.isPresent = true →
    ∃ p < fn.fixedCount, binding.argParamIndices[i]? = some p ∧
      a.explicitName.eqSlice scope.src (paramName fn.fixedNames p) = true
  positional : ∀ (i : Nat) (a : CallArgInfo), call.args[i]? = some a → a.explicitName.isPresent = false →
    i < positionalCallPrefixEnd scope.src fn.fixedNames firstParam → binding.argParamIndices[i]? = some i
  spelled : ∀ (i : Nat) (a : CallArgInfo), call.args[i]? = some a → i < fn.fixedCount →
    a.explicitName.isPresent = false → positionalCallPrefixEnd scope.src fn.fixedNames firstParam ≤ i →
    a.implicitName.isPresent = true ∧ ∃ p < fn.fixedCount, binding.argParamIndices[i]? = some p ∧
      a.implicitName.eqSlice scope.src (paramName fn.fixedNames p) = true
  /-- Every fixed parameter receives one argument, and its expression is the one it is mapped to. -/
  once : ∀ p < fn.fixedCount, ∃! i : Nat, binding.argParamIndices[i]? = some p
  filled : ∀ (i : Nat) (a : CallArgInfo) (p : Nat), call.args[i]? = some a → binding.argParamIndices[i]? = some p →
    p < fn.fixedCount → binding.fixedMappedArgExprNodes[p]? = some (some a.exprNode)
  /-- The surplus arguments go to the variadic parameter, in their order. -/
  surplus : ∀ (i : Nat) (a : CallArgInfo), call.args[i]? = some a → fn.fixedCount ≤ i →
    binding.argParamIndices[i]? = some fn.fixedCount ∧
      binding.argExpectedTypes[i]? = fn.surplusType scope.types a (i - fn.fixedCount)
  length : binding.argParamIndices.length = call.args.length

variable (scope fn call) in
/-- What a call owes where the first positional index was moved over named arguments. -/
structure LeadingNamesFit (firstParam : Nat) : Prop where
  /-- The named arguments it was moved over stand at the parameters of their names. -/
  named : ∀ (i : Nat) (a : CallArgInfo), call.args[i]? = some a → a.explicitName.isPresent = true →
    i < fn.fixedCount → i < call.adjusted.firstPositionalArgIndex →
    a.explicitName.eqSlice scope.src (paramName fn.fixedNames i) = true
  /-- The arguments that only the moved index makes positional spell the parameters they stand at. -/
  spelled : ∀ (i : Nat) (a : CallArgInfo), call.args[i]? = some a → a.explicitName.isPresent = false →
    positionalCallPrefixEnd scope.src fn.fixedNames firstParam ≤ i →
    i < positionalCallPrefixEnd scope.src fn.fixedNames call.adjusted.firstPositionalArgIndex →
    a.implicitName.isPresent = true ∧ a.implicitName.eqSlice scope.src (paramName fn.fixedNames i) = true

omit [DecidableEq Ty] in
theorem lt_fixedCount_of_positional {first i : Nat}
    (inPrefix : i < positionalCallPrefixEnd scope.src fn.fixedNames first) : i < fn.fixedCount :=
  fn.fixedNames_length ▸ (lt_positionalCallPrefixEnd.mp inPrefix).1

variable {firstParam : Nat}

theorem HonoursNames.leadingNamesFit (honours : HonoursNames scope fn call binding firstParam)
    (good : BoundArgs scope fn call.adjusted binding) (distinct : (call.args.map CallArgInfo.exprNode).Nodup) :
    LeadingNamesFit scope fn call firstParam where
  named i a here named within before := by
    obtain ⟨p, -, place, bound, -⟩ := good.place distinct here within
    obtain rfl := Option.some.inj ((argPlace_before before).symm.trans place)
    obtain ⟨q, -, bound', same⟩ := honours.named i a here named
    obtain rfl := Option.some.inj (bound.symm.trans bound')
    exact same
  spelled i a here unnamed behind inPrefix := by
    have within := lt_fixedCount_of_positional inPrefix
    obtain ⟨p, -, place, bound, -⟩ := good.place distinct here within
    obtain rfl := Option.some.inj ((argPlace_positional unnamed inPrefix).symm.trans place)
    obtain ⟨present, q, -, bound', same⟩ := honours.spelled i a here within unnamed behind
    obtain rfl := Option.some.inj (bound.symm.trans bound')
    exact ⟨present, same⟩

theorem LeadingNamesFit.honoursNames (fit : LeadingNamesFit scope fn call firstParam)
    (order : firstParam ≤ call.firstPositionalArgIndex)
    (good : BoundArgs scope fn call.adjusted binding) (distinct : (call.args.map CallArgInfo.exprNode).Nodup) :
    HonoursNames scope fn call binding firstParam where
  named i a here named := by
    have within : i < fn.fixedCount := by
      by_contra behind
      have := (good.surplus i a here (by omega)).1
      rw [named] at this
      cases this
    obtain ⟨p, bound, place, index, -⟩ := good.place distinct here within
    refine ⟨p, bound, index, ?_⟩
    rcases lt_or_ge i call.adjusted.firstPositionalArgIndex with before | from'
    · obtain rfl := Option.some.inj ((argPlace_before before).symm.trans place)
      exact fit.named i a here named within before
    · exact argPlace_named named from' place
  positional i a here unnamed inPrefix := by
    obtain ⟨p, -, place, index, -⟩ := good.place distinct here (lt_fixedCount_of_positional inPrefix)
    have later := inPrefix.trans_le (positionalCallPrefixEnd_mono (order.trans (le_adjustFirstPositional call.args _)))
    obtain rfl := Option.some.inj ((argPlace_positional unnamed later).symm.trans place)
    exact index
  spelled i a here within unnamed behind := by
    obtain ⟨p, bound, place, index, -⟩ := good.place distinct here within
    rcases lt_or_ge i (positionalCallPrefixEnd scope.src fn.fixedNames
      call.adjusted.firstPositionalArgIndex) with inPrefix | after
    · obtain rfl := Option.some.inj ((argPlace_positional unnamed inPrefix).symm.trans place)
      obtain ⟨present, same⟩ := fit.spelled i a here unnamed behind inPrefix
      exact ⟨present, i, bound, index, same⟩
    · -- An argument before the moved index that has no name would stand in the prefix of the call.
      have from' : call.adjusted.firstPositionalArgIndex ≤ i := by
        by_contra before
        have inPrefix : i < positionalCallPrefixEnd scope.src fn.fixedNames
            call.adjusted.firstPositionalArgIndex :=
          lt_positionalCallPrefixEnd.mpr ⟨fn.fixedNames_length.symm ▸ within, fun q later upTo => by omega⟩
        omega
      obtain ⟨present, same⟩ := argPlace_spelled unnamed (fn.fixedNames_length.symm ▸ within) from' after place
      exact ⟨present, p, bound, index, same⟩
  once p within := good.once distinct within
  filled i a p here index bound := by
    have within : i < fn.fixedCount := by
      by_contra behind
      have atLast := (good.surplus i a here (by omega)).2.1
      have := Option.some.inj (index.symm.trans atLast)
      omega
    obtain ⟨q, -, -, index', value⟩ := good.place distinct here within
    rwa [Option.some.inj (index.symm.trans index')]
  surplus i a here behind := (good.surplus i a here behind).2
  length := good.length

/-- A candidate that a call is bound to has the names of the call honoured exactly when the arguments that the first
positional index was moved over, and those that this made positional, stand where they belong. -/
theorem binding_honoursNames_iff (scope : CallScope Ty) (fn : TCFunction Ty) (call : CollectedCall)
    (binding : CallBinding Ty) (firstParam : Nat) (order : firstParam ≤ call.firstPositionalArgIndex)
    (distinct : (call.args.map CallArgInfo.exprNode).Nodup)
    (made : fn.binding scope call.adjusted = .ok binding) :
    HonoursNames scope fn call binding firstParam ↔ LeadingNamesFit scope fn call firstParam := by
  have good := TCFunction.binding_args made
  constructor
  · intro honours
    exact honours.leadingNamesFit good distinct
  · intro fit
    exact fit.honoursNames order good distinct

end

/-- A call that names its first argument as the second parameter, and does not name its second. -/
def labelSource : String := "fn f(a int, b int) {} fn main() { f(b: 1, 2) }"

def labelTypes : TypeTable := TypeTable.initial (bytesOf labelSource) ⟨[], -1⟩ 32

/-- The arguments are constants, which get the type that is expected of them. -/
def labelScope : CallScope TypeId where
  src := bytesOf labelSource
  types := labelTypes.callTypes
  activeExpectedCallType := none
  exprNeedsExpectedType _ := false
  exprIsCompoundTemporary _ := false
  exprIsAssignable _ := false
  typeExpr _ _ := some labelTypes.typeUntypedInt
  typeExprExpected _ _ expected := some expected
  evalConstExprNode _ := some true
  findForwardedConstParamCallSpan _ := none
  checkConstBlocksForCall _ _ _ := .passed

def labelFn : TCFunction TypeId where
  name := ⟨3, 4⟩
  returnType := some labelTypes.typeVoid
  contextType := none
  params := [⟨⟨5, 6⟩, pickInt, false⟩, ⟨⟨12, 13⟩, pickInt, false⟩]
  declNode := 1
  templateArgs := []
  templateRootFuncIndex := none
  variadic := false
  template := false
  templateInstance := false

def labelCall : CollectedCall where
  args := [⟨20, 36, 40, ⟨36, 37⟩, .absent, false⟩, ⟨21, 42, 43, .absent, .absent, false⟩]
  firstPositionalArgIndex := 0
  autoRefFirstArg := false

def labelBinding : CallBinding TypeId where
  isVariadic := false
  fixedCount := 2
  fixedInputCount := 2
  spreadArgIndex := none
  variadicParamType := none
  variadicElemType := none
  fixedMappedArgExprNodes := [some 20, some 21]
  argParamIndices := [0, 1]
  argExpectedTypes := [pickInt, pickInt]

theorem labelCall_bound : labelFn.binding labelScope labelCall.adjusted = .ok labelBinding := by
  decide +kernel

/-- The call is taken, and the argument named `b` is bound to `a`. -/
theorem labelCall_not_honoured :
    (resolveCallByName labelScope [labelFn] ⟨34, 35⟩ labelCall).1 = .chosen 0 ∧
      labelFn.binding labelScope labelCall.adjusted = .ok labelBinding ∧
      ¬ HonoursNames labelScope labelFn labelCall labelBinding 0 := by
  refine ⟨by decide +kernel, labelCall_bound, fun honours => ?_⟩
  obtain ⟨p, -, bound, same⟩ := honours.named 0 ⟨20, 36, 40, ⟨36, 37⟩, .absent, false⟩ rfl (by decide)
  obtain rfl : 0 = p := Option.some.inj bound
  exact absurd same (by decide +kernel)

theorem labelCall_honours_iff :
    HonoursNames labelScope labelFn labelCall labelBinding 0 ↔ LeadingNamesFit labelScope labelFn labelCall 0 :=
  binding_honoursNames_iff labelScope labelFn labelCall labelBinding 0 (by decide) (by decide) labelCall_bound

end HopHop
