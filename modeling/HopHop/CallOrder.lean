import HopHop.CallRun
import HopHop.CallTypes

namespace HopHop

open RunningBest Viable

/-- A table of functions in which every declaration stands once. Instances go back to a declaration of the table. -/
structure FuncTable (Ty : Type) where
  funcs : List (TCFunction Ty)
  declared : ∀ (i j : Nat) (f g : TCFunction Ty), funcs[i]? = some f → funcs[j]? = some g →
    f.templateInstance = false → g.templateInstance = false → f.declNode = g.declNode → i = j

section

variable {Ty : Type}

/-- The target of an index of the table stays the same as the table grows. -/
theorem targetOf_append {before fnIndex : Nat} {funcs more : List (TCFunction Ty)} (inTable : fnIndex < funcs.length) :
    targetOf before (funcs ++ more) fnIndex = targetOf before funcs fnIndex := by
  simp only [targetOf, List.getElem?_append_left inTable]

theorem targetOf_old {before fnIndex : Nat} {funcs : List (TCFunction Ty)} (old : fnIndex < before) :
    targetOf before funcs fnIndex = .function fnIndex := if_pos old

theorem targetOf_new {before i : Nat} {front : List (TCFunction Ty)} {g : TCFunction Ty} (beyond : before ≤ front.length)
    (root : g.templateRootFuncIndex = some i) : targetOf before (front ++ [g]) front.length = .newInstance i := by
  have notOld : ¬ front.length < before := by omega
  simp only [targetOf, if_neg notOld, List.getElem?_concat_length, Option.bind_some, root, Option.getD_some]

end

section

variable {Ty : Type} [DecidableEq Ty] (scope : CallScope Ty) (call : CollectedCall) (autoRef : Option Ty)

/-- The functions behind a table are the instances that a call has made of some of its candidates, one for each. -/
structure CallGrown (table : FuncTable Ty) (tried : List Nat) (news : List (TCFunction Ty)) : Prop where
  made : ∀ g ∈ news, ∃ i ∈ tried, ∃ f, table.funcs[i]? = some f ∧
    standIn scope call autoRef table.funcs i f = .ok (.inr g)
  once : (news.map TCFunction.templateRootFuncIndex).Nodup

variable {scope} {call} {autoRef} {table : FuncTable Ty} {tried : List Nat} {news : List (TCFunction Ty)}

theorem CallGrown.nil (table : FuncTable Ty) (tried : List Nat) : CallGrown scope call autoRef table tried [] :=
  ⟨fun _ mem => absurd mem List.not_mem_nil, List.nodup_nil⟩

theorem CallGrown.mono {tried' : List Nat} (grown : CallGrown scope call autoRef table tried news)
    (sub : ∀ i ∈ tried, i ∈ tried') : CallGrown scope call autoRef table tried' news where
  made g mem := by
    obtain ⟨i, inTried, rest⟩ := grown.made g mem
    exact ⟨i, sub i inTried, rest⟩
  once := grown.once

/-- None of the new functions is an instance of a candidate that has not been tried. -/
theorem CallGrown.others {i : Nat} {fn : TCFunction Ty} (grown : CallGrown scope call autoRef table tried news)
    (atIndex : table.funcs[i]? = some fn) (declaration : fn.templateInstance = false) (untried : i ∉ tried) :
    ∀ g ∈ news, g.declNode ≠ fn.declNode := by
  intro g mem same
  obtain ⟨j, inTried, f, atJ, stands⟩ := grown.made g mem
  obtain ⟨_, _, sameDecl, isDeclaration⟩ := standIn_new stands
  have sameIndex := table.declared j i f fn atJ atIndex isDeclaration declaration (sameDecl.symm.trans same)
  exact untried (sameIndex ▸ inTried)

theorem CallGrown.add {i : Nat} {fn g : TCFunction Ty} (grown : CallGrown scope call autoRef table tried news)
    (atIndex : table.funcs[i]? = some fn) (untried : i ∉ tried)
    (stands : standIn scope call autoRef table.funcs i fn = .ok (.inr g)) :
    CallGrown scope call autoRef table (i :: tried) (news ++ [g]) where
  made g' mem := by
    rcases List.mem_append.mp mem with old | new
    · obtain ⟨j, inTried, rest⟩ := grown.made g' old
      exact ⟨j, List.mem_cons_of_mem i inTried, rest⟩
    · rw [List.mem_singleton.mp new]
      exact ⟨i, List.mem_cons_self, fn, atIndex, stands⟩
  once := by
    rw [List.map_append, List.map_singleton]
    apply List.nodup_append.mpr
    refine ⟨grown.once, by simp, ?_⟩
    intro a inNews b isRoot same
    rw [List.mem_singleton] at isRoot
    obtain ⟨g', mem, rootG'⟩ := List.mem_map.mp inNews
    obtain ⟨j, inTried, _, _, standsJ⟩ := grown.made g' mem
    have sameIndex : j = i := by
      rw [← rootG', isRoot, (standIn_new stands).2.1, (standIn_new standsJ).2.1, Option.some.injEq] at same
      exact same
    exact untried (sameIndex ▸ inTried)

/-- Two functions of a grown table are the same where their targets are. -/
theorem CallGrown.targetOf_injective (grown : CallGrown scope call autoRef table tried news) {i j : Nat}
    (inI : i < (table.funcs ++ news).length) (inJ : j < (table.funcs ++ news).length)
    (same : targetOf table.funcs.length (table.funcs ++ news) i = targetOf table.funcs.length (table.funcs ++ news) j) :
    i = j := by
  simp only [targetOf] at same
  split at same
  · split at same
    · simpa using same
    · cases same
  · split at same
    · cases same
    · rename_i newI newJ
      rw [List.length_append] at inI inJ
      have boundI : i - table.funcs.length < news.length := by omega
      have boundJ : j - table.funcs.length < news.length := by omega
      rw [List.getElem?_append_right (by omega), List.getElem?_append_right (by omega),
        List.getElem?_eq_getElem boundI, List.getElem?_eq_getElem boundJ] at same
      obtain ⟨rootI, _, _, _, standsI⟩ := grown.made _ (List.getElem_mem boundI)
      obtain ⟨rootJ, _, _, _, standsJ⟩ := grown.made _ (List.getElem_mem boundJ)
      have isRootI := (standIn_new standsI).2.1
      have isRootJ := (standIn_new standsJ).2.1
      simp only [Option.bind_some, isRootI, isRootJ, Option.getD_some, CallTarget.newInstance.injEq] at same
      have sameRoot : (news.map TCFunction.templateRootFuncIndex)[i - table.funcs.length]? =
          (news.map TCFunction.templateRootFuncIndex)[j - table.funcs.length]? := by
        rw [List.getElem?_map, List.getElem?_map, List.getElem?_eq_getElem boundI, List.getElem?_eq_getElem boundJ,
          Option.map_some, Option.map_some, isRootI, isRootJ, same]
      have sameOffset := (List.getElem?_inj (by rwa [List.length_map]) grown.once).mp sameRoot
      omega

end

section

variable {Ty : Type} [DecidableEq Ty] (scope : CallScope Ty) (call : CollectedCall) (autoRef : Option Ty)
  {table : FuncTable Ty} {tried : List Nat} {news : List (TCFunction Ty)}

theorem Judged.map_congr {α β : Type} {f g : α → β} {j : Judged α} (same : ∀ v, j = .viable v → f v = g v) :
    j.map f = j.map g := by
  cases j with
  | viable v => simp only [Judged.map, same v rfl]
  | stopped => rfl
  | unmatched e => rfl
  | rejected e total node => rfl

/-- Trying a candidate on a grown table comes to the same as trying it first. -/
theorem CallGrown.evaluateCandidate {i : Nat} {fn : TCFunction Ty} (grown : CallGrown scope call autoRef table tried news)
    (atIndex : table.funcs[i]? = some fn) (untried : i ∉ tried) :
    ∃ more, (evaluateCandidate scope call autoRef (table.funcs ++ news) i).2 = table.funcs ++ (news ++ more) ∧
      CallGrown scope call autoRef table (i :: tried) (news ++ more) ∧
      (∀ v, (evaluateCandidate scope call autoRef (table.funcs ++ news) i).1 = .viable v →
        v.fn < (table.funcs ++ (news ++ more)).length) ∧
      (evaluateCandidate scope call autoRef (table.funcs ++ news) i).1.map
          (mapFn (targetOf table.funcs.length (table.funcs ++ (news ++ more)))) =
        rankCandidate scope call autoRef table.funcs i := by
  have inTable : i < table.funcs.length := (List.getElem?_eq_some_iff.mp atIndex).1
  have atIndex' : (table.funcs ++ news)[i]? = some fn := by rw [List.getElem?_append_left inTable, atIndex]
  have keep : CallGrown scope call autoRef table (i :: tried) (news ++ []) := by
    rw [List.append_nil]
    exact grown.mono fun j mem => List.mem_cons_of_mem i mem
  have sameStandIn : standIn scope call autoRef (table.funcs ++ news) i fn = standIn scope call autoRef table.funcs i fn := by
    by_cases declaration : fn.templateInstance = false
    · exact standIn_append (grown.others atIndex declaration untried)
    · simp only [Bool.not_eq_false] at declaration
      simp only [standIn, declaration, or_true, if_true]
  cases stands : standIn scope call autoRef table.funcs i fn with
  | error e =>
    rw [evaluateCandidate_error atIndex' (sameStandIn.trans stands), rankCandidate,
      evaluateCandidate_error atIndex stands]
    refine ⟨[], by rw [List.append_nil], keep, ?_, ?_⟩
    · intro v isViable
      cases e <;> cases isViable
    · cases e <;> rfl
  | ok found =>
    cases found with
    | inl j =>
      have boundJ := standIn_bound inTable stands
      obtain ⟨g, atJ⟩ : ∃ g, table.funcs[j]? = some g := ⟨_, List.getElem?_eq_getElem boundJ⟩
      have atJ' : (table.funcs ++ news)[j]? = some g := by rw [List.getElem?_append_left boundJ, atJ]
      rw [evaluateCandidate_old atIndex' (sameStandIn.trans stands) atJ', rankCandidate,
        evaluateCandidate_old atIndex stands atJ]
      refine ⟨[], by rw [List.append_nil], keep, ?_, ?_⟩
      · intro v isViable
        have isJ : v.fn = j := (judgeStandIn_viable isViable).1
        rw [isJ, List.length_append]
        omega
      · rw [judgeStandIn_map, judgeStandIn_map, targetOf_old boundJ, targetOf_old boundJ]
    | inr g =>
      have root := (standIn_new stands).2.1
      rw [evaluateCandidate_new atIndex' (sameStandIn.trans stands), rankCandidate,
        evaluateCandidate_new atIndex stands]
      refine ⟨[g], by rw [List.append_assoc], grown.add atIndex untried stands, ?_, ?_⟩
      · intro v isViable
        have isNew : v.fn = (table.funcs ++ news).length := (judgeStandIn_viable isViable).1
        rw [isNew]
        simp only [List.length_append, List.length_singleton]
        omega
      · rw [judgeStandIn_map, judgeStandIn_map, ← List.append_assoc, targetOf_new (by simp) root,
          targetOf_new le_rfl root]

/-- Trying a list of candidates comes to what each of them comes to when it is tried first, up to the numbers of the
instances that are made. -/
theorem CallGrown.evaluateAll {candidates : List Nat} (grown : CallGrown scope call autoRef table tried news) (nodup : candidates.Nodup)
    (inTable : ∀ i ∈ candidates, i < table.funcs.length) (untried : ∀ i ∈ candidates, i ∉ tried) :
    ∃ more tried', (evaluateAll scope call autoRef (table.funcs ++ news) candidates).2 = table.funcs ++ (news ++ more) ∧
      CallGrown scope call autoRef table tried' (news ++ more) ∧
      (∀ v, .viable v ∈ (evaluateAll scope call autoRef (table.funcs ++ news) candidates).1 →
        v.fn < (table.funcs ++ (news ++ more)).length) ∧
      (evaluateAll scope call autoRef (table.funcs ++ news) candidates).1.map
          (Judged.map (mapFn (targetOf table.funcs.length (table.funcs ++ (news ++ more))))) =
        candidates.map (rankCandidate scope call autoRef table.funcs) := by
  induction candidates generalizing tried news with
  | nil =>
    refine ⟨[], tried, by simp [HopHop.evaluateAll], by rwa [List.append_nil], ?_, rfl⟩
    intro v mem
    exact absurd mem List.not_mem_nil
  | cons i rest ih =>
    obtain ⟨notInRest, nodupRest⟩ := List.nodup_cons.mp nodup
    have boundI := inTable i List.mem_cons_self
    obtain ⟨fn, atIndex⟩ : ∃ fn, table.funcs[i]? = some fn := ⟨_, List.getElem?_eq_getElem boundI⟩
    obtain ⟨first, after, grownFirst, boundFirst, sameFirst⟩ :=
      grown.evaluateCandidate scope call autoRef atIndex (untried i List.mem_cons_self)
    have untriedRest : ∀ j ∈ rest, j ∉ i :: tried := by
      intro j mem inTried
      rcases List.mem_cons.mp inTried with same | old
      · exact notInRest (same ▸ mem)
      · exact untried j (List.mem_cons_of_mem i mem) old
    obtain ⟨more, tried', afterRest, grownRest, boundRest, sameRest⟩ :=
      ih grownFirst nodupRest (fun j mem => inTable j (List.mem_cons_of_mem i mem)) untriedRest
    have split : table.funcs ++ (news ++ (first ++ more)) = table.funcs ++ (news ++ first) ++ more := by
      simp only [List.append_assoc]
    have split' : table.funcs ++ (news ++ first ++ more) = table.funcs ++ (news ++ first) ++ more := by
      simp only [List.append_assoc]
    simp only [HopHop.evaluateAll, after]
    refine ⟨first ++ more, tried', ?_, ?_, ?_, ?_⟩
    · rw [afterRest, split', split]
    · rwa [← List.append_assoc]
    · intro v mem
      rcases List.mem_cons.mp mem with head | later
      · have bound := boundFirst v head.symm
        rw [split, List.length_append]
        omega
      · have bound := boundRest v later
        rwa [split, ← split']
    · rw [List.map_cons, List.map_cons, split, ← split', sameRest, ← sameFirst, split']
      congr 1
      apply Judged.map_congr
      intro v isViable
      have stays := @targetOf_append _ table.funcs.length v.fn _ more (boundFirst v isViable)
      simp only [Viable.mapFn, stays]

/-- What a resolution comes to, with the function told apart from others whatever the order they were made in. -/
def outcomeAfter (before : Nat) (resolved : CallResult × List (TCFunction Ty)) : CallOutcome CallTarget :=
  resolved.1.outcome.map (targetOf before resolved.2)

/-- A resolution in terms of what each candidate comes to when it is tried first. -/
theorem resolveCallFromCandidates_outcome {candidates : List Nat} (nameFound : Bool) (nodup : candidates.Nodup)
    (inTable : ∀ i ∈ candidates, i < table.funcs.length) :
    outcomeAfter table.funcs.length (resolveCallFromCandidates scope table.funcs candidates nameFound call) =
      if nameFound = false then .noName
      else if MAX_CALL_ARGS < call.args.length then .stopped
      else
        match autoRefType scope call with
        | .error r => r.outcome.map (targetOf table.funcs.length table.funcs)
        | .ok autoRef =>
          selectOutcome (call.args.any fun a => scope.exprNeedsExpectedType a.exprNode)
            (candidates.map (rankCandidate scope call autoRef table.funcs)) := by
  simp only [resolveCallFromCandidates]
  split
  · rfl
  · split
    · rfl
    · cases autoRefType scope call with
      | error r => rfl
      | ok autoRef =>
        simp only
        obtain ⟨more, tried, after, grown, bound, same⟩ := (CallGrown.nil table []).evaluateAll scope call autoRef nodup
          inTable (fun _ _ => List.not_mem_nil)
        rw [List.append_nil] at after bound same
        rw [List.nil_append] at after grown bound same
        have loop := tryCandidates_eq scope call autoRef table.funcs .start candidates
        cases noted : Search.start.noteAll (HopHop.evaluateAll scope call autoRef table.funcs candidates).1 with
        | none =>
          rw [noted] at loop
          obtain ⟨j, mem, stops⟩ := Search.noteAll_isNone.mp noted
          have stopped : selectOutcome (call.args.any fun a => scope.exprNeedsExpectedType a.exprNode)
              (candidates.map (rankCandidate scope call autoRef table.funcs)) = .stopped := by
            apply selectOutcome_stopped (j := j.map (mapFn (targetOf table.funcs.length (table.funcs ++ more))))
            · rw [← same]
              exact List.mem_map_of_mem mem
            · rw [Judged.isStopped_map, stops]
          rw [stopped]
          cases ran : tryCandidates scope call autoRef table.funcs .start candidates with
          | mk result after' =>
            rw [ran] at loop
            simp only at loop
            rw [loop]
            rfl
        | some found =>
          rw [noted] at loop
          simp only at loop
          rw [loop, after, ← same, selectOutcome_map]
          · simp only [outcomeAfter]
            rw [Search.result_outcome _ noted]
          · intro v memV w memW sameTarget
            exact grown.targetOf_injective (bound v (mem_viables.mp memV)) (bound w (mem_viables.mp memW)) sameTarget

end

end HopHop
