import HopHop.CallOrder
import Mathlib.Data.List.Nodup

namespace HopHop

open RunningBest Viable

section

variable {Ty : Type} {funcs : List (TCFunction Ty)}

theorem mem_functionsWhere {test : TCFunction Ty → Bool} {i : Nat} :
    i ∈ functionsWhere funcs test ↔ ∃ fn, funcs[i]? = some fn ∧ test fn = true := by
  simp only [functionsWhere, List.mem_filter, List.mem_range, Option.any_eq_true]
  constructor
  · rintro ⟨_, fn, atIndex, passes⟩
    exact ⟨fn, atIndex, passes⟩
  · rintro ⟨fn, atIndex, passes⟩
    exact ⟨(List.getElem?_eq_some_iff.mp atIndex).1, fn, atIndex, passes⟩

theorem functionsWhere_nodup (test : TCFunction Ty → Bool) : (functionsWhere funcs test).Nodup :=
  List.Nodup.filter _ List.nodup_range

variable {scope : CallScope Ty} {name : NameRange}

/-- A function of the name itself is not the built-in one behind it. -/
theorem builtinQualified_otherName {fn : TCFunction Ty} (named : functionNameEq scope name fn = true) :
    functionIsBuiltinQualifiedSlice scope fn name = false := by
  rw [Bool.eq_false_iff]
  intro qualified
  simp only [functionNameEq, NameRange.eqSlice, decide_eq_true_eq] at named
  simp only [functionIsBuiltinQualifiedSlice, decide_eq_true_eq] at qualified
  have sameLength := congrArg List.length (named.2.2.symm.trans qualified.2.2.2.2)
  simp only [bytesOf, List.length_append, List.length_map] at sameLength
  have nine : "builtin__".toList.length = 9 := rfl
  omega

theorem callCandidates_nodup : (callCandidates scope funcs name).Nodup := by
  apply List.nodup_append.mpr
  refine ⟨functionsWhere_nodup _, functionsWhere_nodup _, ?_⟩
  intro i named j behind same
  obtain ⟨fn, atIndex, isNamed⟩ := mem_functionsWhere.mp named
  obtain ⟨fn', atIndex', isBehind⟩ := mem_functionsWhere.mp behind
  rw [← same, atIndex, Option.some.injEq] at atIndex'
  rw [← atIndex', builtinQualified_otherName isNamed] at isBehind
  cases isBehind

theorem callCandidates_bound : ∀ i ∈ callCandidates scope funcs name, i < funcs.length := by
  intro i mem
  rcases List.mem_append.mp mem with named | behind
  · obtain ⟨_, atIndex, _⟩ := mem_functionsWhere.mp named
    exact (List.getElem?_eq_some_iff.mp atIndex).1
  · obtain ⟨_, atIndex, _⟩ := mem_functionsWhere.mp behind
    exact (List.getElem?_eq_some_iff.mp atIndex).1

end

section

variable {Ty : Type} [DecidableEq Ty] (scope : CallScope Ty) (table : FuncTable Ty) (name : NameRange)
  (call : CollectedCall)

/-- The resolution of a call over candidates in a given order. -/
def outcomeInOrder (order : List Nat) : CallOutcome CallTarget :=
  outcomeAfter table.funcs.length (resolveCallFromCandidates scope table.funcs order (!order.isEmpty) call)

/-- The viable candidates of a call by a name, with the target each would give the call. -/
def rankedCandidates (autoRef : Option Ty) : List (Viable CallTarget) :=
  viables ((callCandidates scope table.funcs name).map (rankCandidate scope call autoRef table.funcs))

/-- A candidate with the same costs as another stands before it for one of two reasons: it is not variadic, or no
instance of a template. -/
def WinsTie (v w : Viable CallTarget) : Prop :=
  v.variadic = false ∧ w.variadic = true ∨ v.templateInstance = false ∧ w.templateInstance = true

/-- What overload resolution promises for a call by a name: all functions of the name are candidates, their order does
not matter, and the function that is chosen costs least, ties being broken by form only. -/
structure OverloadContract : Prop where
  complete : gatherCallCandidates scope table.funcs name = callCandidates scope table.funcs name
  orderFree : ∀ order, order.Perm (callCandidates scope table.funcs name) →
    outcomeInOrder scope table call order = outcomeInOrder scope table call (callCandidates scope table.funcs name)
  least : ∀ target, outcomeInOrder scope table call (callCandidates scope table.funcs name) = .chosen target →
    ∃ autoRef, autoRefType scope call = .ok autoRef ∧
      ∃ v ∈ rankedCandidates scope table name call autoRef, v.fn = target ∧
        ∀ w ∈ rankedCandidates scope table name call autoRef, w.fn ≠ target →
          costValues v.costs < costValues w.costs ∨ v.costs = w.costs ∧ WinsTie v w

/-- The candidates fit in their table, and those of the first rank are all variadic or none of them is, unless the
check of the call ends early. -/
def BestRankAgrees : Prop :=
  (callCandidates scope table.funcs name).length ≤ MAX_CALL_CANDIDATES ∧
    (MAX_CALL_ARGS < call.args.length ∨
      ∀ autoRef, autoRefType scope call = .ok autoRef →
        (∃ i ∈ callCandidates scope table.funcs name,
            (rankCandidate scope call autoRef table.funcs i).isStopped = true) ∨
          TopsAgree (rankedCandidates scope table name call autoRef))

variable {scope} {table} {name} {call}

/-- What is known of a viable candidate: it stands for a function of the table and has its form, or it is an instance
of its own. -/
theorem rankCandidate_viable {autoRef : Option Ty} {i : Nat} {v : Viable CallTarget}
    (viable : rankCandidate scope call autoRef table.funcs i = .viable v) :
    v.costs.length = call.args.length ∧
      ((∃ (j : Nat) (g : TCFunction Ty), table.funcs[j]? = some g ∧ v.fn = .function j ∧ v.variadic = g.variadic)
        ∨ v.fn = .newInstance i) := by
  cases atIndex : table.funcs[i]? with
  | none => simp [rankCandidate, evaluateCandidate, atIndex, Judged.map] at viable
  | some fn =>
    have inTable : i < table.funcs.length := (List.getElem?_eq_some_iff.mp atIndex).1
    cases stands : standIn scope call autoRef table.funcs i fn with
    | error e =>
      rw [rankCandidate, evaluateCandidate_error atIndex stands] at viable
      cases e <;> cases viable
    | ok found =>
      cases found with
      | inl j =>
        have boundJ := standIn_bound inTable stands
        obtain ⟨g, atJ⟩ : ∃ g, table.funcs[j]? = some g := ⟨_, List.getElem?_eq_getElem boundJ⟩
        rw [rankCandidate, evaluateCandidate_old atIndex stands atJ, judgeStandIn_map, targetOf_old boundJ] at viable
        obtain ⟨isJ, form, length⟩ := judgeStandIn_viable viable
        exact ⟨length, .inl ⟨j, g, atJ, isJ, form⟩⟩
      | inr g =>
        rw [rankCandidate, evaluateCandidate_new atIndex stands, judgeStandIn_map,
          targetOf_new le_rfl (standIn_new stands).2.1] at viable
        obtain ⟨isNew, _, length⟩ := judgeStandIn_viable viable
        exact ⟨length, .inr isNew⟩

/-- Candidates of different forms are different functions. -/
theorem rankCandidate_form {autoRef : Option Ty} {i j : Nat} {v w : Viable CallTarget}
    (viableV : rankCandidate scope call autoRef table.funcs i = .viable v)
    (viableW : rankCandidate scope call autoRef table.funcs j = .viable w) (same : v.fn = w.fn) :
    v.variadic = w.variadic := by
  obtain ⟨_, known⟩ := rankCandidate_viable viableV
  obtain ⟨_, known'⟩ := rankCandidate_viable viableW
  rcases known with ⟨k, g, atK, isK, form⟩ | isNew
  · rcases known' with ⟨k', g', atK', isK', form'⟩ | isNew'
    · rw [isK, isK', CallTarget.function.injEq] at same
      rw [same, atK', Option.some.injEq] at atK
      rw [form, form', atK]
    · rw [isK, isNew'] at same
      cases same
  · rcases known' with ⟨k', g', atK', isK', form'⟩ | isNew'
    · rw [isNew, isK'] at same
      cases same
    · rw [isNew, isNew', CallTarget.newInstance.injEq] at same
      rw [same, viableW] at viableV
      cases viableV
      rfl

theorem rankedCandidates_length {autoRef : Option Ty} :
    ∀ v ∈ rankedCandidates scope table name call autoRef, v.costs.length = call.args.length := by
  intro v mem
  obtain ⟨i, _, viable⟩ := List.mem_map.mp (mem_viables.mp mem)
  exact (rankCandidate_viable viable).1

/-- The outcome in any order of the candidates. -/
theorem outcomeInOrder_eq {order : List Nat} (perm : order.Perm (callCandidates scope table.funcs name))
    (few : call.args.length ≤ MAX_CALL_ARGS) (nonempty : order ≠ []) {autoRef : Option Ty}
    (typed : autoRefType scope call = .ok autoRef) :
    outcomeInOrder scope table call order =
      selectOutcome (call.args.any fun a => scope.exprNeedsExpectedType a.exprNode)
        (order.map (rankCandidate scope call autoRef table.funcs)) := by
  have nodup : order.Nodup := perm.nodup_iff.mpr callCandidates_nodup
  have bound : ∀ i ∈ order, i < table.funcs.length := fun i mem => callCandidates_bound i (perm.mem_iff.mp mem)
  have found : (!order.isEmpty) = true := by simpa using nonempty
  rw [outcomeInOrder, resolveCallFromCandidates_outcome scope call _ nodup bound, if_neg (by simp [found]),
    if_neg (by omega), typed]

/-- The order does not matter to a call whose check ends early. -/
theorem outcomeInOrder_early {order : List Nat} (perm : order.Perm (callCandidates scope table.funcs name))
    (early : MAX_CALL_ARGS < call.args.length ∨ ∃ r, autoRefType scope call = .error r) :
    outcomeInOrder scope table call order = outcomeInOrder scope table call (callCandidates scope table.funcs name) := by
  have nodup : order.Nodup := perm.nodup_iff.mpr callCandidates_nodup
  have bound : ∀ i ∈ order, i < table.funcs.length := fun i mem => callCandidates_bound i (perm.mem_iff.mp mem)
  have sameEmpty : order.isEmpty = (callCandidates scope table.funcs name).isEmpty := by
    rw [Bool.eq_iff_iff, List.isEmpty_iff, List.isEmpty_iff]
    exact ⟨fun empty => (empty ▸ perm).symm.eq_nil, fun empty => (empty ▸ perm).eq_nil⟩
  rw [outcomeInOrder, outcomeInOrder, resolveCallFromCandidates_outcome scope call _ nodup bound,
    resolveCallFromCandidates_outcome scope call _ callCandidates_nodup callCandidates_bound, sameEmpty]
  rcases early with many | ⟨r, failed⟩
  · rw [if_pos many, if_pos many]
  · rw [failed]

theorem winsTie_of_marks {v w : Viable CallTarget} (less : v.marks < w.marks) : WinsTie v w := by
  obtain ⟨_, _, variadicV, instanceV⟩ := v
  obtain ⟨_, _, variadicW, instanceW⟩ := w
  simp only [marks, WinsTie] at less ⊢
  cases variadicV <;> cases instanceV <;> cases variadicW <;> cases instanceW <;> simp at less ⊢

/-- Two elements of a list can be moved to its end. -/
theorem perm_pair_last {l : List Nat} {i j : Nat} (memI : i ∈ l) (memJ : j ∈ l) (other : i ≠ j) :
    ∃ rest, (rest ++ [i, j]).Perm l := by
  refine ⟨(l.erase i).erase j, ?_⟩
  have memJ' : j ∈ l.erase i := (List.mem_erase_of_ne (Ne.symm other)).mpr memJ
  have front : ((l.erase i).erase j ++ [i, j]).Perm (i :: j :: (l.erase i).erase j) := List.perm_append_comm
  have back : (i :: j :: (l.erase i).erase j).Perm (i :: l.erase i) := (List.perm_cons_erase memJ').symm.cons i
  exact (front.trans back).trans (List.perm_cons_erase memI).symm

/-- Of two candidates of the first rank and of different forms, the one that is tried last is chosen. -/
theorem outcomeInOrder_crossed {rest : List Nat} {i j : Nat} {autoRef : Option Ty} {t u : Viable CallTarget}
    (few : call.args.length ≤ MAX_CALL_ARGS) (typed : autoRefType scope call = .ok autoRef)
    (running : ¬ ∃ k ∈ callCandidates scope table.funcs name,
      (rankCandidate scope call autoRef table.funcs k).isStopped = true)
    (perm : (rest ++ [i, j]).Perm (callCandidates scope table.funcs name))
    (viableT : rankCandidate scope call autoRef table.funcs i = .viable t)
    (viableU : rankCandidate scope call autoRef table.funcs j = .viable u)
    (topT : IsTop (rankedCandidates scope table name call autoRef) t)
    (topU : IsTop (rankedCandidates scope table name call autoRef) u) (otherForm : t.variadic ≠ u.variadic) :
    outcomeInOrder scope table call (rest ++ [i, j]) = .chosen u.fn := by
  have split : viables ((rest ++ [i, j]).map (rankCandidate scope call autoRef table.funcs)) =
      viables (rest.map (rankCandidate scope call autoRef table.funcs)) ++ [t, u] := by
    simp [viables, viableT, viableU, Judged.viable?]
  have inside : ∀ v ∈ viables (rest.map (rankCandidate scope call autoRef table.funcs)) ++ [t, u],
      v ∈ rankedCandidates scope table name call autoRef := by
    intro v mem
    rw [← split] at mem
    exact ((perm.map _).filterMap _).mem_iff.mp mem
  have ran := run_crossed rankedCandidates_length inside topT topU otherForm
  have noStop : ((rest ++ [i, j]).map (rankCandidate scope call autoRef table.funcs)).any Judged.isStopped = false := by
    rw [List.any_eq_false]
    intro judged mem isStopped
    obtain ⟨k, memK, rfl⟩ := List.mem_map.mp mem
    exact running ⟨k, perm.mem_iff.mp memK, isStopped⟩
  rw [outcomeInOrder_eq perm few (by simp) typed, selectOutcome, noStop, split, ran]
  rfl

theorem BestRankAgrees.orderFree (agrees : BestRankAgrees scope table name call) {order : List Nat}
    (perm : order.Perm (callCandidates scope table.funcs name)) :
    outcomeInOrder scope table call order = outcomeInOrder scope table call (callCandidates scope table.funcs name) := by
  rcases agrees.2 with many | ranked
  · exact outcomeInOrder_early perm (.inl many)
  · cases typed : autoRefType scope call with
    | error r => exact outcomeInOrder_early perm (.inr ⟨r, typed⟩)
    | ok autoRef =>
      by_cases few : call.args.length ≤ MAX_CALL_ARGS
      · by_cases empty : order = []
        · rw [empty] at perm
          rw [empty, perm.symm.eq_nil]
        · have nonempty : callCandidates scope table.funcs name ≠ [] := by
            intro isNil
            rw [isNil] at perm
            exact empty perm.eq_nil
          rw [outcomeInOrder_eq perm few empty typed, outcomeInOrder_eq (List.Perm.refl _) few nonempty typed]
          rcases ranked autoRef typed with ⟨i, mem, stops⟩ | agree
          · have stopped : ∀ l : List Nat, i ∈ l →
                selectOutcome (call.args.any fun a => scope.exprNeedsExpectedType a.exprNode)
                  (l.map (rankCandidate scope call autoRef table.funcs)) = .stopped := fun l inside =>
              selectOutcome_stopped _ (List.mem_map_of_mem inside) stops
            rw [stopped order (perm.mem_iff.mpr mem), stopped _ mem]
          · exact (selectOutcome_perm _ agree rankedCandidates_length (perm.symm.map _)).symm
      · exact outcomeInOrder_early perm (.inl (by omega))

/-- A chosen function costs least, and ties are broken by form. -/
theorem BestRankAgrees.least (agrees : BestRankAgrees scope table name call) {target : CallTarget}
    (chosen : outcomeInOrder scope table call (callCandidates scope table.funcs name) = .chosen target) :
    ∃ autoRef, autoRefType scope call = .ok autoRef ∧
      ∃ v ∈ rankedCandidates scope table name call autoRef, v.fn = target ∧
        ∀ w ∈ rankedCandidates scope table name call autoRef, w.fn ≠ target →
          costValues v.costs < costValues w.costs ∨ v.costs = w.costs ∧ WinsTie v w := by
  have nonempty : callCandidates scope table.funcs name ≠ [] := by
    intro isNil
    rw [isNil] at chosen
    cases chosen
  have resolved := resolveCallFromCandidates_outcome scope call
    (!(callCandidates scope table.funcs name).isEmpty) (@callCandidates_nodup _ table.funcs scope name)
    callCandidates_bound
  rw [outcomeInOrder] at chosen
  rw [chosen] at resolved
  split at resolved
  · cases resolved
  · split at resolved
    · cases resolved
    · rename_i few
      cases typed : autoRefType scope call with
      | error r =>
        rw [typed] at resolved
        simp only [autoRefType] at typed
        split at typed
        · split at typed
          · split at typed <;> cases typed
            cases resolved
          · cases typed
        · cases typed
      | ok autoRef =>
        rw [typed] at resolved
        refine ⟨autoRef, rfl, ?_⟩
        simp only [selectOutcome] at resolved
        split at resolved
        · cases resolved
        · rename_i noStop
          have agree : TopsAgree (rankedCandidates scope table name call autoRef) := by
            rcases agrees.2 with many | ranked
            · exact absurd many few
            · rcases ranked autoRef typed with ⟨i, mem, stops⟩ | agree
              · refine absurd (List.any_eq_true.mpr ⟨_, List.mem_map_of_mem mem, stops⟩) noStop
              · exact agree
          have champions := agree.champions rankedCandidates_length
          cases ran : run compareViable (rankedCandidates scope table name call autoRef) with
          | none =>
            simp only [rankedCandidates] at ran
            rw [ran] at resolved
            simp only [found] at resolved
            split at resolved
            · cases resolved
            · split at resolved <;> cases resolved
          | some result =>
            obtain ⟨v, tied⟩ := result
            have nonemptyRank := List.ne_nil_of_mem (run_mem compareViable ran)
            obtain ⟨v', tied', ran', mem, top, marked⟩ := champions.run_eq nonemptyRank
            rw [ran] at ran'
            cases ran'
            simp only [rankedCandidates] at ran
            rw [ran] at resolved
            cases tied with
            | true =>
              simp only [found] at resolved
              split at resolved <;> cases resolved
            | false =>
              simp only [found, CallOutcome.chosen.injEq] at resolved
              refine ⟨v, mem, resolved.symm, ?_⟩
              intro w memW other
              have notTop : ¬ IsTop (rankedCandidates scope table name call autoRef) w := by
                intro topW
                have isMarked := marked.mpr ⟨w, memW, topW, resolved ▸ other⟩
                cases isMarked
              rcases (key_lt_iff v w).mp (top.lt_of_not memW notTop) with less | ⟨sameCosts, marks⟩
              · exact .inl less
              · exact .inr ⟨sameCosts, winsTie_of_marks marks⟩

/-- Where the contract holds, the candidates of the first rank agree. -/
theorem OverloadContract.bestRankAgrees (contract : OverloadContract scope table name call) :
    BestRankAgrees scope table name call := by
  have complete := contract.complete
  have fits := congrArg List.length complete
  rw [gatherCallCandidates, List.length_take] at fits
  refine ⟨by omega, ?_⟩
  by_cases few : call.args.length ≤ MAX_CALL_ARGS
  · right
    intro autoRef typed
    by_cases stops : ∃ i ∈ callCandidates scope table.funcs name,
        (rankCandidate scope call autoRef table.funcs i).isStopped = true
    · exact .inl stops
    · right
      intro t memT u memU topT topU
      by_contra otherForm
      obtain ⟨i, memI, viableT⟩ := List.mem_map.mp (mem_viables.mp memT)
      obtain ⟨j, memJ, viableU⟩ := List.mem_map.mp (mem_viables.mp memU)
      have otherIndex : i ≠ j := by
        intro same
        rw [same, viableU] at viableT
        cases viableT
        exact otherForm rfl
      obtain ⟨rest, perm⟩ := perm_pair_last memI memJ otherIndex
      have perm' : (rest ++ [j, i]).Perm (callCandidates scope table.funcs name) :=
        ((List.Perm.swap i j []).append_left rest).trans perm
      have first := outcomeInOrder_crossed few typed stops perm viableT viableU topT topU otherForm
      have second := outcomeInOrder_crossed few typed stops perm' viableU viableT topU topT (Ne.symm otherForm)
      rw [contract.orderFree _ perm] at first
      rw [contract.orderFree _ perm', first, CallOutcome.chosen.injEq] at second
      exact otherForm (rankCandidate_form viableT viableU second.symm)
  · exact .inl (by omega)

end

/-- A table of functions that are each declared once. -/
def FuncTable.ofDeclared {Ty : Type} (funcs : List (TCFunction Ty)) (nodup : (funcs.map TCFunction.declNode).Nodup) :
    FuncTable Ty where
  funcs := funcs
  declared := by
    intro i j f g atI atJ _ _ sameDecl
    have bound := (List.getElem?_eq_some_iff.mp atI).1
    refine (List.getElem?_inj (by rwa [List.length_map]) nodup).mp ?_
    rw [List.getElem?_map, List.getElem?_map, atI, atJ, Option.map_some, Option.map_some, sameDecl]

/-- Two functions of one name, a template and a variadic one, and a call that costs nothing with either. -/
def pickSource : String :=
  "fn pick(x anytype) int { return 1 } fn pick(xs ...int) int { return 2 } fn main() { var n int = 3; pick(n) }"

/-- The type `int`. -/
def pickInt : TypeId := some 12

/-- The table of types, with the slice of the variadic parameter. -/
def pickTypes : TypeTable := ((TypeTable.initial (bytesOf pickSource) ⟨[], -1⟩ 32).internSliceType pickInt false 0 0).2

/-- Every expression of the call is the variable of type `int`. -/
def pickScope : CallScope TypeId where
  src := bytesOf pickSource
  types := pickTypes.callTypes
  activeExpectedCallType := none
  exprNeedsExpectedType _ := false
  exprIsCompoundTemporary _ := false
  exprIsAssignable _ := true
  typeExpr _ _ := some pickInt
  typeExprExpected _ _ _ := some pickInt
  evalConstExprNode _ := some false
  findForwardedConstParamCallSpan _ := none
  checkConstBlocksForCall _ _ _ := .passed

def pickTemplate : TCFunction TypeId where
  name := ⟨3, 7⟩
  returnType := some pickInt
  contextType := none
  params := [⟨⟨8, 9⟩, pickTypes.typeAnytype, false⟩]
  declNode := 1
  templateArgs := []
  templateRootFuncIndex := none
  variadic := false
  template := true
  templateInstance := false

def pickVariadic : TCFunction TypeId where
  name := ⟨39, 43⟩
  returnType := some pickInt
  contextType := none
  params := [⟨⟨44, 46⟩, some 22, false⟩]
  declNode := 9
  templateArgs := []
  templateRootFuncIndex := none
  variadic := true
  template := false
  templateInstance := false

def pickTable : FuncTable TypeId := .ofDeclared [pickTemplate, pickVariadic] (by decide)

def pickCall : CollectedCall where
  args := [⟨30, 104, 105, .absent, ⟨104, 105⟩, false⟩]
  firstPositionalArgIndex := 0
  autoRefFirstArg := false

end HopHop
