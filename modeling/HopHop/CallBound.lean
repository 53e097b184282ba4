import HopHop.CallMapping
import HopHop.CallResolve
import HopHop.CallRun

namespace HopHop

section

variable {src : List UInt8} {names : List NameRange} {first : Nat}

theorem lt_positionalPrefixFrom {left p i : Nat} :
    i < positionalPrefixFrom src names left p ↔
      i < p + left ∧ ∀ q, p ≤ q → q ≤ i → paramNameStartsWithUnderscore src names q = true := by
  induction left generalizing p with
  | zero =>
    refine ⟨fun before => ⟨before, fun q from' upTo => ?_⟩, And.left⟩
    simp only [positionalPrefixFrom] at before
    omega
  | succ left ih =>
    by_cases here : paramNameStartsWithUnderscore src names p = true
    · simp only [positionalPrefixFrom, here, if_true, ih]
      refine and_congr (by omega) ⟨fun later q from' upTo => ?_, fun all q from' upTo => all q (by omega) upTo⟩
      rcases from'.eq_or_lt with rfl | after
      · exact here
      · exact later q after upTo
    · simp only [positionalPrefixFrom, here, if_false, Bool.false_eq_true]
      refine ⟨fun before => ⟨by omega, fun q from' upTo => by omega⟩, fun ⟨_, all⟩ => ?_⟩
      by_contra notBefore
      exact here (all p le_rfl (by omega))

/-- The positional prefix goes on as long as the names start with an underscore. -/
theorem lt_positionalCallPrefixEnd {i : Nat} :
    i < positionalCallPrefixEnd src names first ↔
      i < names.length ∧ ∀ q, first < q → q ≤ i → paramNameStartsWithUnderscore src names q = true := by
  simp only [positionalCallPrefixEnd]
  split_ifs with behind
  · exact ⟨fun within => ⟨within, fun q after upTo => by omega⟩, And.left⟩
  · rw [lt_positionalPrefixFrom]
    refine and_congr (by omega) Iff.rfl

theorem positionalCallPrefixEnd_mono {later : Nat} (order : first ≤ later) :
    positionalCallPrefixEnd src names first ≤ positionalCallPrefixEnd src names later := by
  refine le_of_forall_lt fun i before => ?_
  rw [lt_positionalCallPrefixEnd] at before ⊢
  exact ⟨before.1, fun q after upTo => before.2 q (by omega) upTo⟩

theorem paramOfName_eqSlice {name : NameRange} {p : Nat} (found : paramOfName src names first name = some p) :
    name.eqSlice src (paramName names p) = true := by
  have meets := List.find?_some found
  simp only [decide_eq_true_eq] at meets
  exact meets.2

variable {i p : Nat} {a : CallArgInfo}

theorem argPlace_before (before : i < first) : argPlace src names first i a = some i := by
  simp only [argPlace, if_pos before]

/-- From the first positional argument on, a name is honoured. -/
theorem argPlace_named (named : a.explicitName.isPresent = true) (from' : first ≤ i)
    (place : argPlace src names first i a = some p) : a.explicitName.eqSlice src (paramName names p) = true := by
  simp only [argPlace, named, if_neg (not_lt.mpr from'), if_true, true_and] at place
  split_ifs at place with atFirst mismatch
  · rw [← Option.some.inj place]
    simpa using mismatch
  · exact paramOfName_eqSlice place

theorem argPlace_positional (unnamed : a.explicitName.isPresent = false)
    (inPrefix : i < positionalCallPrefixEnd src names first) : argPlace src names first i a = some i := by
  simp only [argPlace, unnamed, inPrefix, Bool.false_eq_true, false_and, if_false, if_true]
  split_ifs with before atFirst
  · rfl
  · rw [atFirst]
  · rfl

theorem argPlace_spelled (unnamed : a.explicitName.isPresent = false) (within : i < names.length) (from' : first ≤ i)
    (behind : positionalCallPrefixEnd src names first ≤ i) (place : argPlace src names first i a = some p) :
    a.implicitName.isPresent = true ∧ a.implicitName.eqSlice src (paramName names p) = true := by
  have after : i ≠ first := by
    rintro rfl
    have inPrefix : i < positionalCallPrefixEnd src names i :=
      lt_positionalCallPrefixEnd.mpr ⟨within, fun q after upTo => absurd upTo (by omega)⟩
    omega
  simp only [argPlace, unnamed, if_neg (not_lt.mpr from'), if_neg after, if_neg (not_lt.mpr behind), Bool.false_eq_true,
    if_false] at place
  split_ifs at place with implicit
  exact ⟨implicit, paramOfName_eqSlice place⟩

end

theorem le_adjustFirstPositional (args : List CallArgInfo) (first : Nat) :
    first ≤ adjustFirstPositional args first := by
  simp only [adjustFirstPositional]
  split_ifs with all
  · exact le_rfl
  · have := Nat.min_le_right first args.length
    have : ((args.drop (min first args.length)).takeWhile fun a => a.explicitName.isPresent).length ≤
        (args.drop (min first args.length)).length := (List.takeWhile_prefix _).length_le
    omega

section

variable {Ty : Type}

/-- The type of a surplus argument by its place among these. -/
def VariadicTail.typeAt : VariadicTail Ty → Nat → Option Ty
  | .each elem, _ => some elem
  | .pack elems, k => elems[k]?

theorem boundParams_get {allowNamedMapping : Bool} {first fixedCount : Nat} {mapped : MappedArgs} {paramTypes : List Ty}
    {i : Nat} {args : List CallArgInfo} {bound : List (Nat × Ty)}
    (made : boundParams allowNamedMapping first fixedCount mapped paramTypes i args = some bound) {k : Nat}
    {a : CallArgInfo} (here : args[k]? = some a) :
    (bound.map Prod.fst)[k]? = boundParam allowNamedMapping first fixedCount mapped (i + k) a := by
  induction args generalizing i bound k with
  | nil => simp at here
  | cons b rest ih =>
    simp only [boundParams] at made
    cases param : boundParam allowNamedMapping first fixedCount mapped i b with
    | none => simp [param] at made
    | some p =>
      cases type : paramTypes[p]? with
      | none => simp [param, type] at made
      | some ty =>
        cases tail : boundParams allowNamedMapping first fixedCount mapped paramTypes (i + 1) rest with
        | none => simp [param, type, tail] at made
        | some more =>
          simp only [param, type, tail, Option.some.injEq] at made
          subst made
          cases k with
          | zero =>
            obtain rfl : b = a := by simpa using here
            simp [param]
          | succ k =>
            have later := ih tail (by simpa using here)
            rw [show i + 1 + k = i + (k + 1) by omega] at later
            simpa using later

theorem boundTail_get {fixedCount : Nat} {variadicParamType : Ty} {tail : VariadicTail Ty} {k : Nat}
    {args : List CallArgInfo} {bound : List (Nat × Ty)}
    (made : boundTail fixedCount variadicParamType tail none k args = .ok bound) {j : Nat} {a : CallArgInfo}
    (here : args[j]? = some a) :
    a.explicitName.isPresent = false ∧ ∃ ty, tail.typeAt (k + j) = some ty ∧ bound[j]? = some (fixedCount, ty) := by
  induction args generalizing k bound j with
  | nil => simp at here
  | cons b rest ih =>
    simp only [boundTail, Option.isSome_none, Bool.false_eq_true, if_false] at made
    split at made
    · cases made
    · rename_i unnamed
      split at made
      · cases made
      · rename_i ty type
        have typeHere : tail.typeAt k = some ty := by cases tail <;> exact type
        cases more : boundTail fixedCount variadicParamType tail none (k + 1) rest with
        | error e => simp [more] at made
        | ok rest' =>
          simp only [more, Except.ok.injEq] at made
          subst made
          cases j with
          | zero =>
            obtain rfl : b = a := by simpa using here
            exact ⟨by simpa using unnamed, ty, typeHere, rfl⟩
          | succ j =>
            have later := ih more (by simpa using here)
            rw [show k + 1 + j = k + (j + 1) by omega] at later
            simpa using later

theorem spreadArgIndex_none {args : List CallArgInfo} (spread : spreadArgIndex args = .ok none) {a : CallArgInfo}
    (member : a ∈ args) : a.spread = false := by
  simp only [spreadArgIndex] at spread
  split at spread
  · cases spread
  · rename_i none'
    simp only [Except.ok.injEq] at spread
    split_ifs at spread with last
    have nonempty : args ≠ [] := List.ne_nil_of_mem member
    rw [← List.dropLast_append_getLast nonempty] at member
    rcases List.mem_append.mp member with early | atEnd
    · simpa using List.find?_eq_none.mp none' a early
    · rw [List.getLast?_eq_some_getLast nonempty] at last
      rw [List.mem_singleton.mp atEnd]
      simpa using last

theorem spreadArgIndex_some {args : List CallArgInfo} {j : Nat} (spread : spreadArgIndex args = .ok (some j)) :
    ∃ a, args[j]? = some a ∧ a.spread = true ∧ j + 1 = args.length := by
  obtain ⟨nonempty, rfl⟩ := spreadArgIndex_last spread
  have positive := List.length_pos_iff.mpr nonempty
  simp only [spreadArgIndex] at spread
  split at spread
  · cases spread
  · simp only [Except.ok.injEq] at spread
    split_ifs at spread with last
    rw [List.getLast?_eq_getElem?] at last
    cases final : args[args.length - 1]? with
    | none => simp [final] at last
    | some a =>
      rw [final, Option.any_some] at last
      exact ⟨a, rfl, last, by omega⟩

variable [DecidableEq Ty] {types : CallTypes Ty} {args : List CallArgInfo} {paramTypes : List Ty}

/-- A call of a function that is not variadic has an argument for each parameter. -/
theorem checkCallShape_exact {spread : Option Nat} {variadic : Option (Ty × VariadicTail Ty)}
    (shape : checkCallShape types args paramTypes false spread = .ok variadic) : args.length = paramTypes.length := by
  simp only [checkCallShape, if_true] at shape
  split at shape
  · cases shape
  · split at shape
    · cases shape
    · rename_i same
      simpa using same

/-- A call of a variadic function has an argument for each fixed parameter, and a spread argument has no name. -/
theorem checkCallShape_enough {spread : Option Nat} {variadic : Option (Ty × VariadicTail Ty)}
    (shape : checkCallShape types args paramTypes true spread = .ok variadic) :
    ∃ last tail, paramTypes.getLast? = some last ∧ variadicTail types last = some tail ∧ variadic = some (last, tail) ∧
      paramTypes.length - 1 ≤ args.length ∧
      ∀ j a, spread = some j → args[j]? = some a →
        args.length = paramTypes.length - 1 + 1 ∧ a.explicitName.isPresent = false := by
  simp only [checkCallShape, Bool.true_eq_false, if_false] at shape
  cases last : paramTypes.getLast? with
  | none => simp [last] at shape
  | some variadicParamType =>
    cases stands : variadicTail types variadicParamType with
    | none => simp [last, stands] at shape
    | some tail =>
      simp only [last, stands] at shape
      refine ⟨variadicParamType, tail, rfl, stands, ?_⟩
      cases arg : spread.bind (args[·]?) with
      | some a =>
        simp only [arg] at shape
        split at shape
        · cases shape
        · rename_i fits
          obtain ⟨count, unnamed⟩ := not_or.mp fits
          rw [not_ne_iff] at count
          simp only [Except.ok.injEq] at shape
          refine ⟨shape.symm, by omega, fun j b isSpread here => ?_⟩
          rw [isSpread, Option.bind_some, here] at arg
          obtain rfl := Option.some.inj arg
          exact ⟨count, by simpa using unnamed⟩
      | none =>
        simp only [arg] at shape
        have noSpread : ∀ j a, spread = some j → args[j]? = some a →
            args.length = paramTypes.length - 1 + 1 ∧ a.explicitName.isPresent = false := by
          intro j a isSpread here
          rw [isSpread, Option.bind_some, here] at arg
          cases arg
        split at shape
        · cases shape
        · rename_i enough
          cases tail with
          | each elem =>
            simp only [Except.ok.injEq] at shape
            exact ⟨shape.symm, by omega, noSpread⟩
          | pack elems =>
            simp only at shape
            split at shape
            · cases shape
            · simp only [Except.ok.injEq] at shape
              exact ⟨shape.symm, by omega, noSpread⟩

/-- The number of fixed parameters of a function. -/
def TCFunction.fixedCount (fn : TCFunction Ty) : Nat :=
  if fn.variadic then fn.params.length - 1 else fn.params.length

def TCFunction.fixedNames (fn : TCFunction Ty) : List NameRange := (fn.params.map FnParam.name).take fn.fixedCount

/-- The type that a surplus argument is expected to have, by its place among these. -/
def TCFunction.surplusType (types : CallTypes Ty) (fn : TCFunction Ty) (a : CallArgInfo) (k : Nat) : Option Ty :=
  fn.params.getLast?.bind fun last =>
    if a.spread then some last.type else (variadicTail types last.type).bind (·.typeAt k)

omit [DecidableEq Ty] in
theorem TCFunction.fixedNames_length (fn : TCFunction Ty) : fn.fixedNames.length = fn.fixedCount := by
  simp only [TCFunction.fixedNames, TCFunction.fixedCount, List.length_take, List.length_map]
  split <;> omega

variable {scope : CallScope Ty} {fn : TCFunction Ty} {call : CollectedCall} {binding : CallBinding Ty}

variable (scope fn call binding) in
/-- What the arguments of a call are bound to: the fixed parameters take the arguments that belong to them, the last
one all that are left. -/
structure BoundArgs : Prop where
  enough : fn.fixedCount ≤ call.args.length
  placed : ArgsPlaced scope.src fn.fixedNames call.firstPositionalArgIndex (call.args.take fn.fixedCount)
    binding.fixedMappedArgExprNodes
  fixed : ∀ i a, (call.args.take fn.fixedCount)[i]? = some a →
    binding.argParamIndices[i]? =
      boundParam true call.firstPositionalArgIndex fn.fixedCount binding.fixedMappedArgExprNodes i a
  surplus : ∀ i a, call.args[i]? = some a → fn.fixedCount ≤ i →
    a.explicitName.isPresent = false ∧ binding.argParamIndices[i]? = some fn.fixedCount ∧
      binding.argExpectedTypes[i]? = fn.surplusType scope.types a (i - fn.fixedCount)
  length : binding.argParamIndices.length = call.args.length

theorem argsPlaced_of_mapFixedArgs {src : List UInt8} {names : List NameRange} {first fixedCount : Nat}
    {mapped : MappedArgs} (enough : fixedCount ≤ args.length)
    (made : mapFixedArgs src names first true (args.take fixedCount) fixedCount = .ok mapped) :
    ArgsPlaced src (names.take fixedCount) first (args.take fixedCount) mapped := by
  simp only [mapFixedArgs, Bool.true_eq_false, if_false] at made
  split_ifs at made with none'
  · subst none'
    obtain rfl := Except.ok.inj made
    exact ⟨Nat.zero_le _, rfl, fun i a here => by simp at here, fun p within => by simp at within⟩
  · exact argsPlaced_of_made made

/-- The surplus arguments have no names, and the types the variadic parameter has for them in their order. -/
theorem TCFunction.surplus_bound {spread : Option Nat} {last : Ty} {tail : VariadicTail Ty} {bound : List (Nat × Ty)}
    (isVariadic : fn.variadic = true) (index : spreadArgIndex call.args = .ok spread)
    (shape : checkCallShape scope.types call.args (fn.params.map FnParam.type) true spread = .ok (some (last, tail)))
    (made : boundTail fn.fixedCount last tail spread 0 (call.args.drop fn.fixedCount) = .ok bound) {i : Nat}
    {a : CallArgInfo} (here : call.args[i]? = some a) (behind : fn.fixedCount ≤ i) :
    a.explicitName.isPresent = false ∧ ∃ ty, fn.surplusType scope.types a (i - fn.fixedCount) = some ty ∧
      bound[i - fn.fixedCount]? = some (fn.fixedCount, ty) := by
  obtain ⟨last', tail', lastParam, stands, same, enough, spreadLast⟩ := checkCallShape_enough shape
  obtain ⟨rfl, rfl⟩ := Prod.mk.inj (Option.some.inj same)
  obtain ⟨param, isLast, rfl⟩ : ∃ param, fn.params.getLast? = some param ∧ param.type = last := by
    rw [List.getLast?_map] at lastParam
    exact Option.map_eq_some_iff.mp lastParam
  have count : fn.fixedCount = fn.params.length - 1 := if_pos isVariadic
  have inDrop : (call.args.drop fn.fixedCount)[i - fn.fixedCount]? = some a := by
    rw [List.getElem?_drop, show fn.fixedCount + (i - fn.fixedCount) = i by omega, here]
  cases spread with
  | none =>
    obtain ⟨unnamed, ty, type, at'⟩ := boundTail_get made inDrop
    rw [Nat.zero_add] at type
    refine ⟨unnamed, ty, ?_, at'⟩
    have notSpread := spreadArgIndex_none index (List.mem_of_getElem? here)
    simp [TCFunction.surplusType, isLast, notSpread, stands, type]
  | some j =>
    obtain ⟨b, there, isSpread, atEnd⟩ := spreadArgIndex_some index
    obtain ⟨onlyOne, unnamed⟩ := spreadLast j b rfl there
    have inside : i < call.args.length := (List.getElem?_eq_some_iff.mp here).1
    rw [List.length_map] at onlyOne
    obtain rfl : i = j := by omega
    obtain rfl : a = b := Option.some.inj (here.symm.trans there)
    have first : i - fn.fixedCount = 0 := by omega
    rw [first] at inDrop ⊢
    refine ⟨unnamed, param.type, by simp [TCFunction.surplusType, isLast, isSpread], ?_⟩
    cases behind' : call.args.drop fn.fixedCount with
    | nil => simp [behind'] at inDrop
    | cons c more =>
      simp only [behind', boundTail, Option.isSome_some, if_true, Except.ok.injEq] at made
      simp [← made]

theorem TCFunction.binding_args (made : fn.binding scope call = .ok binding) : BoundArgs scope fn call binding := by
  have expected := prepareCallBinding_length made
  simp only [TCFunction.binding, prepareCallBinding, List.length_map] at made
  split at made
  · cases made
  · cases spread : spreadArgIndex call.args with
    | error e => simp [spread] at made
    | ok spreadIndex =>
      simp only [spread] at made
      cases shape : checkCallShape scope.types call.args (fn.params.map FnParam.type) fn.variadic spreadIndex with
      | error e => simp [shape] at made
      | ok variadic =>
        obtain ⟨enough, inputCount⟩ : fn.fixedCount ≤ call.args.length ∧
            (if fn.variadic = true then fn.fixedCount else call.args.length) = fn.fixedCount := by
          cases isVariadic : fn.variadic with
          | false =>
            rw [isVariadic] at shape
            have count := checkCallShape_exact shape
            rw [List.length_map] at count
            simp [TCFunction.fixedCount, isVariadic, count]
          | true =>
            rw [isVariadic] at shape
            obtain ⟨_, _, -, -, -, enough, -⟩ := checkCallShape_enough shape
            rw [List.length_map] at enough
            simpa [TCFunction.fixedCount, isVariadic] using enough
        simp only [shape, ← TCFunction.fixedCount.eq_def, inputCount] at made
        cases mapping : mapFixedArgs scope.src (fn.params.map FnParam.name) call.firstPositionalArgIndex true
            (call.args.take fn.fixedCount) fn.fixedCount with
        | error e => simp [mapping] at made
        | ok mapped =>
          cases fixed : boundParams true call.firstPositionalArgIndex fn.fixedCount mapped
              (fn.params.map FnParam.type) 0 (call.args.take fn.fixedCount) with
          | none => simp [mapping, fixed] at made
          | some fixedBound =>
            simp only [mapping, fixed] at made
            split at made
            · cases made
            · rename_i tailBound tail
              obtain rfl := Except.ok.inj made
              have fixedLength : fixedBound.length = fn.fixedCount := by
                rw [boundParams_length fixed, List.length_take, Nat.min_eq_left enough]
              refine ⟨enough, argsPlaced_of_mapFixedArgs enough mapping, ?_, ?_, by simpa using expected⟩
              · intro i a here
                have inside : i < fixedBound.length := by
                  rw [fixedLength]
                  exact (lt_min_iff.mp (List.length_take ▸ (List.getElem?_eq_some_iff.mp here).1)).1
                have bound := boundParams_get fixed here
                rw [Nat.zero_add] at bound
                rw [← bound, List.map_append, List.getElem?_append_left (by simpa using inside)]
              · intro i a here behind
                have inside : i < call.args.length := (List.getElem?_eq_some_iff.mp here).1
                cases isVariadic : fn.variadic with
                | false =>
                  simp only [isVariadic, Bool.false_eq_true, if_false] at inputCount
                  omega
                | true =>
                  rw [isVariadic] at shape
                  obtain ⟨last, rest, -, -, rfl, -, -⟩ := checkCallShape_enough shape
                  obtain ⟨unnamed, ty, type, at'⟩ := TCFunction.surplus_bound isVariadic spread shape tail here behind
                  have surplus : (fixedBound ++ tailBound)[i]? = some (fn.fixedCount, ty) := by
                    rw [List.getElem?_append_right (by omega), fixedLength, at']
                  exact ⟨unnamed, by rw [List.getElem?_map, surplus, Option.map_some],
                    by rw [List.getElem?_map, surplus, Option.map_some, type]⟩

/-- An argument is found again by its expression. -/
theorem boundParam_place {src : List UInt8} {names : List NameRange} {first : Nat} {mapped : MappedArgs}
    (good : ArgsPlaced src names first args mapped) (distinct : (args.map CallArgInfo.exprNode).Nodup) {i p : Nat}
    {a : CallArgInfo} (here : args[i]? = some a) (place : argPlace src names first i a = some p) :
    boundParam true first names.length mapped i a = some p := by
  have within := good.place_lt here place
  have value := good.value_of_place here place
  simp only [boundParam, Bool.true_eq_false, false_and, if_false]
  rcases lt_trichotomy i first with before | rfl | after
  · obtain rfl := Option.some.inj ((argPlace_before before).symm.trans place)
    rw [if_pos ⟨before, within⟩]
  · obtain rfl := argPlace_first place
    rw [if_neg (by omega), if_pos ⟨rfl, within, by rw [value, Option.join_some]⟩]
  · rw [if_neg (by omega), if_neg (by omega), List.findIdx?_eq_some_iff_getElem]
    obtain ⟨inside, valueAt⟩ := List.getElem?_eq_some_iff.mp value
    refine ⟨inside, by simp [valueAt], fun q earlier => ?_⟩
    obtain ⟨j, ⟨b, there, placeB⟩, -⟩ := good.unique q (by omega)
    have valueB := (List.getElem?_eq_some_iff.mp (good.value_of_place there placeB)).2
    rw [valueB]
    intro same
    have node : (args.map CallArgInfo.exprNode)[i]? = (args.map CallArgInfo.exprNode)[j]? := by
      rw [List.getElem?_map, List.getElem?_map, here, there]
      simpa [eq_comm] using same
    have index := (List.getElem?_inj (by simpa using (List.getElem?_eq_some_iff.mp here).1) distinct).mp node
    subst index
    obtain rfl := Option.some.inj (here.symm.trans there)
    have := Option.some.inj (place.symm.trans placeB)
    omega

theorem BoundArgs.place (good : BoundArgs scope fn call binding)
    (distinct : (call.args.map CallArgInfo.exprNode).Nodup) {i : Nat} {a : CallArgInfo} (here : call.args[i]? = some a)
    (within : i < fn.fixedCount) :
    ∃ p < fn.fixedCount, argPlace scope.src fn.fixedNames call.firstPositionalArgIndex i a = some p ∧
      binding.argParamIndices[i]? = some p ∧ binding.fixedMappedArgExprNodes[p]? = some (some a.exprNode) := by
  have inFixed : (call.args.take fn.fixedCount)[i]? = some a := by rw [List.getElem?_take_of_lt within, here]
  have distinctFixed : ((call.args.take fn.fixedCount).map CallArgInfo.exprNode).Nodup :=
    distinct.sublist ((List.take_sublist ..).map _)
  obtain ⟨p, place, value⟩ := good.placed.placed i a inFixed
  have bound := boundParam_place good.placed distinctFixed inFixed place
  rw [fn.fixedNames_length] at bound
  exact ⟨p, fn.fixedNames_length ▸ good.placed.place_lt inFixed place, place, (good.fixed i a inFixed).trans bound,
    value⟩

/-- Every fixed parameter takes one argument, and no surplus argument goes to one. -/
theorem BoundArgs.once (good : BoundArgs scope fn call binding)
    (distinct : (call.args.map CallArgInfo.exprNode).Nodup) {p : Nat} (within : p < fn.fixedCount) :
    ∃! i : Nat, binding.argParamIndices[i]? = some p := by
  obtain ⟨i, ⟨a, here, place⟩, only⟩ := good.placed.unique p (by rwa [fn.fixedNames_length])
  obtain ⟨early, inArgs⟩ : i < fn.fixedCount ∧ call.args[i]? = some a := by
    rw [List.getElem?_take] at here
    split_ifs at here with early
    exact ⟨early, here⟩
  obtain ⟨q, -, place', bound, -⟩ := good.place distinct inArgs early
  obtain rfl := Option.some.inj (place.symm.trans place')
  refine ⟨i, bound, fun j there => ?_⟩
  have inside : j < call.args.length := good.length ▸ (List.getElem?_eq_some_iff.mp there).1
  have argJ := List.getElem?_eq_getElem inside
  by_cases earlyJ : j < fn.fixedCount
  · obtain ⟨r, -, placeJ, boundJ, -⟩ := good.place distinct argJ earlyJ
    obtain rfl := Option.some.inj (there.symm.trans boundJ)
    exact only j ⟨_, by rw [List.getElem?_take_of_lt earlyJ, argJ], placeJ⟩
  · have atLast := (good.surplus j _ argJ (by omega)).2.1
    have := Option.some.inj (there.symm.trans atLast)
    omega

end

end HopHop
