import HopHop.CallCarried

namespace HopHop

open RunningBest Viable

section

variable {Fn : Type} [DecidableEq Fn]

/-- More candidates make no difference where each stands behind another or is one of those that were there, and those
of the first rank agree. -/
theorem TopsAgree.found_more {l l' : List (Viable Fn)} {n : Nat} (agree : TopsAgree l)
    (lengths : ∀ v ∈ l', v.costs.length = n) (kept : ∀ v ∈ l, v ∈ l')
    (harmless : ∀ v ∈ l', v ∈ l ∨ ∃ w ∈ l, w.key < v.key) :
    found Viable.fn (run compareViable l') = found Viable.fn (run compareViable l) := by
  have topKept : ∀ {t : Viable Fn}, t ∈ l → IsTop l t → IsTop l' t := by
    intro t memT top w memW
    rcases harmless w memW with own | ⟨u, memU, less⟩
    · exact top w own
    · exact (top u memU).trans less.le
  have topOwn : ∀ {t : Viable Fn}, t ∈ l' → IsTop l' t → t ∈ l ∧ IsTop l t := by
    intro t memT top
    refine ⟨?_, fun w memW => top w (kept w memW)⟩
    rcases harmless t memT with own | ⟨u, memU, less⟩
    · exact own
    · exact absurd (top u (kept u memU)) (not_le_of_gt less)
  have agree' : TopsAgree l' := by
    intro t memT u memU topT topU
    obtain ⟨ownT, topT'⟩ := topOwn memT topT
    obtain ⟨ownU, topU'⟩ := topOwn memU topU
    exact agree t ownT u ownU topT' topU'
  refine (agree'.champions lengths).found_eq (agree.champions fun v mem => lengths v (kept v mem)) ?_ ?_
  · intro t memT topT
    obtain ⟨own, top⟩ := topOwn memT topT
    exact ⟨t, own, top, rfl⟩
  · intro t memT topT
    exact ⟨t, kept t memT, topKept memT topT, rfl⟩

/-- Candidates that stand behind another make no difference to the search. -/
theorem run_least {l l' : List (Viable Fn)} {n : Nat} (lengths : ∀ v ∈ l', v.costs.length = n)
    (same : ∀ rank, (∃ v ∈ l, v.key = rank) → (∀ v ∈ l, rank ≤ v.key) →
      l'.filter (fun v => decide (v.key = rank)) = l.filter fun v => decide (v.key = rank))
    (kept : ∀ v ∈ l, v ∈ l') (behind : ∀ v ∈ l', ∃ w ∈ l, w.key ≤ v.key) :
    run compareViable l' = run compareViable l := by
  by_cases empty : l = []
  · have empty' : l' = [] := by
      rw [List.eq_nil_iff_forall_not_mem]
      intro v mem
      obtain ⟨w, memW, _⟩ := behind v mem
      rw [empty] at memW
      exact absurd memW List.not_mem_nil
    rw [empty, empty']
  · obtain ⟨t, memT, topT⟩ := exists_isTop empty
    have least : ∀ v ∈ l', t.key ≤ v.key := by
      intro v mem
      obtain ⟨w, memW, below⟩ := behind v mem
      exact (topT w memW).trans below
    have ahead : ∀ {m : List (Viable Fn)}, (∀ v ∈ m, v ∈ l') → ∀ u ∈ m, ∀ x ∈ m, u.key = t.key → ¬ x.key = t.key →
        compareViable u x = .replace ∧ compareViable x u = .keep := by
      intro m inside u memU x memX isLeast notLeast
      have sameLength : u.costs.length = x.costs.length := by
        rw [lengths u (inside u memU), lengths x (inside x memX)]
      have less : u.key < x.key := isLeast ▸ lt_of_le_of_ne (least x (inside x memX)) (Ne.symm notLeast)
      exact ⟨compareViable_of_key_lt sameLength less, compareViable_of_key_gt sameLength.symm less⟩
    rw [run_filter (ahead fun v mem => mem) ⟨t, kept t memT, rfl⟩, run_filter (ahead kept) ⟨t, memT, rfl⟩,
      same t.key ⟨t, memT, rfl⟩ topT]

end

/-- Elements that a test keeps out make no difference to what passes it. -/
theorem filter_viables_map {α β : Type} {p : α → Bool} {q : β → Bool} {f : α → Judged β} {l : List α}
    (out : ∀ a ∈ l, p a = false → ∀ v, f a = .viable v → q v = false) :
    (viables (l.map f)).filter q = (viables ((l.filter p).map f)).filter q := by
  induction l with
  | nil => rfl
  | cons a rest ih =>
    have tail := ih fun b mem => out b (List.mem_cons_of_mem a mem)
    simp only [viables] at tail
    by_cases inside : p a = true
    · rw [List.filter_cons_of_pos inside]
      simp only [viables, List.map_cons, List.filterMap_cons]
      cases f a with
      | viable v =>
        simp only [Judged.viable?, List.filter_cons]
        rw [tail]
      | stopped => exact tail
      | unmatched e => exact tail
      | rejected e total node => exact tail
    · rw [List.filter_cons_of_neg inside]
      simp only [viables, List.map_cons, List.filterMap_cons]
      cases judged : f a with
      | viable v =>
        have fails := out a List.mem_cons_self (by simpa using inside) v judged
        simp only [Judged.viable?]
        rw [List.filter_cons_of_neg (by simp [fails]), tail]
      | stopped => exact tail
      | unmatched e => exact tail
      | rejected e total node => exact tail


section

variable {Ty : Type}

/-- The functions of a grown table that pass a test, up to the ones that are new. -/
theorem functionsWhere_filter {funcs news : List (TCFunction Ty)} {test test' : TCFunction Ty → Bool}
    (same : ∀ (i : Nat) (fn : TCFunction Ty), funcs[i]? = some fn → test' fn = test fn) :
    (functionsWhere (funcs ++ news) test').filter (fun i => decide (i < funcs.length)) = functionsWhere funcs test := by
  have range : List.range (funcs ++ news).length =
      List.range funcs.length ++ (List.range news.length).map (funcs.length + ·) := by
    rw [List.length_append, List.range_add]
  rw [functionsWhere, functionsWhere, range, List.filter_append, List.filter_append]
  have old : ((List.range funcs.length).filter fun i => ((funcs ++ news)[i]?).any test').filter
      (fun i => decide (i < funcs.length)) = (List.range funcs.length).filter fun i => (funcs[i]?).any test := by
    rw [List.filter_filter]
    apply List.filter_congr
    intro i mem
    have inside := List.mem_range.mp mem
    obtain ⟨fn, atIndex⟩ : ∃ fn, funcs[i]? = some fn := ⟨_, List.getElem?_eq_getElem inside⟩
    rw [List.getElem?_append_left inside, atIndex]
    simp [inside, same i fn atIndex]
  have new : (((List.range news.length).map (funcs.length + ·)).filter fun i => ((funcs ++ news)[i]?).any test').filter
      (fun i => decide (i < funcs.length)) = [] := by
    rw [List.filter_filter, List.filter_eq_nil_iff]
    intro i mem
    obtain ⟨k, _, rfl⟩ := List.mem_map.mp mem
    simp
  rw [old, new, List.append_nil]

variable {scope : CallScope Ty}

/-- A built-in function that is hidden by one of its signature stays hidden as the table grows. -/
theorem hasUnqualifiedFunctionIdentity_append {funcs news : List (TCFunction Ty)} {builtinFn : TCFunction Ty}
    {name : NameRange} (hidden : hasUnqualifiedFunctionIdentity scope funcs builtinFn name = true) :
    hasUnqualifiedFunctionIdentity scope (funcs ++ news) builtinFn name = true := by
  simp only [hasUnqualifiedFunctionIdentity, List.any_append, Bool.or_eq_true] at hidden ⊢
  exact .inl hidden

/-- The candidates of a call in a grown table, up to the ones that are new. -/
theorem callCandidates_filter {funcs news : List (TCFunction Ty)} {name : NameRange}
    (kept : ∀ i ∈ callCandidates scope funcs name, i ∈ callCandidates scope (funcs ++ news) name) :
    (callCandidates scope (funcs ++ news) name).filter (fun i => decide (i < funcs.length)) =
      callCandidates scope funcs name := by
  rw [callCandidates, callCandidates, List.filter_append, functionsWhere_filter fun _ _ _ => rfl,
    functionsWhere_filter]
  intro i fn atIndex
  cases qualified : functionIsBuiltinQualifiedSlice scope fn name with
  | false => rfl
  | true =>
    cases hidden : hasUnqualifiedFunctionIdentity scope funcs fn name with
    | true => rw [hasUnqualifiedFunctionIdentity_append hidden]
    | false =>
      have inside : i < funcs.length := (List.getElem?_eq_some_iff.mp atIndex).1
      have candidate : i ∈ callCandidates scope funcs name := by
        apply List.mem_append_right
        exact mem_functionsWhere.mpr ⟨fn, atIndex, by simp [qualified, hidden]⟩
      rcases List.mem_append.mp (kept i candidate) with named | behind
      · obtain ⟨fn', atIndex', isNamed⟩ := mem_functionsWhere.mp named
        rw [List.getElem?_append_left inside, atIndex, Option.some.injEq] at atIndex'
        rw [← atIndex'] at isNamed
        rw [builtinQualified_otherName isNamed] at qualified
        cases qualified
      · obtain ⟨fn', atIndex', isBehind⟩ := mem_functionsWhere.mp behind
        rw [List.getElem?_append_left inside, atIndex, Option.some.injEq] at atIndex'
        rw [← atIndex', qualified, Bool.true_and] at isBehind
        rw [Bool.true_and, Bool.true_and, isBehind]
        rfl

variable [DecidableEq Ty] {call : CollectedCall}

/-- The function at the index a resolution comes to is the one behind its target. -/
theorem resolveCallFromCandidates_entry {table : FuncTable Ty} {candidates : List Nat} {nameFound : Bool}
    {autoRef : Option Ty} {fnIndex : Nat} {funcs : List (TCFunction Ty)} (nodup : candidates.Nodup)
    (inTable : ∀ i ∈ candidates, i < table.funcs.length) (typed : autoRefType scope call = .ok autoRef)
    (resolved : resolveCallFromCandidates scope table.funcs candidates nameFound call = (.chosen fnIndex, funcs)) :
    funcs[fnIndex]? =
      targetEntry scope call autoRef table.funcs (targetOf table.funcs.length funcs fnIndex) := by
  obtain ⟨more, tried, after, grown, bound, _⟩ := (CallGrown.nil table []).evaluateAll scope call autoRef nodup
    inTable (fun _ _ => List.not_mem_nil)
  rw [List.append_nil] at after bound
  rw [List.nil_append] at after grown bound
  simp only [resolveCallFromCandidates] at resolved
  split at resolved
  · cases resolved
  · split at resolved
    · cases resolved
    · rw [typed] at resolved
      simp only at resolved
      have loop := tryCandidates_eq scope call autoRef table.funcs .start candidates
      cases noted : Search.start.noteAll (evaluateAll scope call autoRef table.funcs candidates).1 with
      | none =>
        rw [noted] at loop
        split at resolved
        · cases resolved
        · rename_i ran
          simp only [ran] at loop
          cases loop
      | some search =>
        rw [noted] at loop
        simp only at loop
        rw [loop, after] at resolved
        simp only [Prod.mk.injEq] at resolved
        obtain ⟨chosen, isTable⟩ := resolved
        have best := (Search.noteAll_spec noted).2.1
        have inside : fnIndex < (table.funcs ++ more).length := by
          simp only [Search.result] at chosen
          split at chosen
          · rename_i v found
            simp only [CallResult.chosen.injEq] at chosen
            rw [found] at best
            rw [← chosen]
            exact bound v (mem_viables.mp (run_mem compareViable best.symm))
          · split at chosen <;> cases chosen
          · cases chosen
          · cases chosen
          · cases chosen
        rw [← isTable]
        by_cases old : fnIndex < table.funcs.length
        · rw [targetOf_old old, List.getElem?_append_left old]
          rfl
        · rw [List.length_append] at inside
          have boundNew : fnIndex - table.funcs.length < more.length := by omega
          obtain ⟨i, _, f, atI, stands⟩ := grown.made _ (List.getElem_mem boundNew)
          have root := (standIn_new stands).2.1
          simp only [targetOf, if_neg old]
          rw [List.getElem?_append_right (by omega), List.getElem?_eq_getElem boundNew, Option.bind_some, root,
            Option.getD_some, targetEntry, atI, Option.bind_some, stands]

end

section

variable {Ty : Type} [DecidableEq Ty] {program : CallProgram Ty}

/-- The function a call goes to, in terms of what each of its candidates comes to. -/
theorem calledFunction_eq {table : FuncTable Ty} {step : CallStep program}
    (room : (callCandidates step.scope table.funcs step.name).length ≤ MAX_CALL_CANDIDATES) :
    calledFunction table step =
      if MAX_CALL_ARGS < step.call.args.length then none
      else
        match autoRefType step.scope step.call with
        | .error _ => none
        | .ok autoRef =>
          ((selectTarget ((callCandidates step.scope table.funcs step.name).map
            (rankCandidate step.scope step.call autoRef table.funcs))).bind
              (targetEntry step.scope step.call autoRef table.funcs)).map TCFunction.identity := by
  have gathered : gatherCallCandidates step.scope table.funcs step.name =
      callCandidates step.scope table.funcs step.name := List.take_of_length_le room
  have resolves : resolveCallByName step.scope table.funcs step.name step.site =
      resolveCallFromCandidates step.scope table.funcs (callCandidates step.scope table.funcs step.name)
        (!(callCandidates step.scope table.funcs step.name).isEmpty) step.call := by
    simp only [resolveCallByName, gathered, CallStep.call]
  have outcome := resolveCallFromCandidates_outcome step.scope step.call
    (!(callCandidates step.scope table.funcs step.name).isEmpty)
    (@callCandidates_nodup _ table.funcs step.scope step.name) callCandidates_bound
  simp only [calledFunction, resolves]
  cases resolved : resolveCallFromCandidates step.scope table.funcs (callCandidates step.scope table.funcs step.name)
      (!(callCandidates step.scope table.funcs step.name).isEmpty) step.call with
  | mk result funcs =>
    rw [resolved] at outcome
    by_cases empty : callCandidates step.scope table.funcs step.name = []
    · have noName : result = .noName := by
        rw [empty] at resolved
        simp only [resolveCallFromCandidates, List.isEmpty_nil, Bool.not_true, if_true, Prod.mk.injEq] at resolved
        exact resolved.1.symm
      rw [noName, empty]
      by_cases many : MAX_CALL_ARGS < step.call.args.length
      · rw [if_pos many]
      · rw [if_neg many]
        cases autoRefType step.scope step.call <;> rfl
    · have nonempty : (!(callCandidates step.scope table.funcs step.name).isEmpty) = true := by simpa using empty
      rw [nonempty, if_neg (by simp)] at outcome
      by_cases many : MAX_CALL_ARGS < step.call.args.length
      · rw [if_pos many] at outcome ⊢
        cases result <;> first | rfl | cases outcome
      · rw [if_neg many] at outcome ⊢
        cases typed : autoRefType step.scope step.call with
        | error r =>
          have stopped : r = .stopped := by
            simp only [autoRefType] at typed
            split at typed
            · split at typed
              · split at typed <;> cases typed
                rfl
              · cases typed
            · cases typed
          rw [typed, stopped] at outcome
          cases result <;> first | rfl | cases outcome
        | ok autoRef =>
          rw [typed] at outcome
          simp only at outcome ⊢
          cases selected : selectTarget ((callCandidates step.scope table.funcs step.name).map
              (rankCandidate step.scope step.call autoRef table.funcs)) with
          | some target =>
            rw [(selectTarget_eq _ _ target).mp selected] at outcome
            cases result with
            | chosen fnIndex =>
              have entry := resolveCallFromCandidates_entry callCandidates_nodup callCandidates_bound typed resolved
              simp only [outcomeAfter, CallResult.outcome, CallOutcome.map, CallOutcome.chosen.injEq] at outcome
              rw [outcome] at entry
              simp only [Option.bind_some]
              rw [entry]
            | _ => cases outcome
          | none =>
            cases result with
            | chosen fnIndex =>
              have isSelected := (selectTarget_eq _ _ _).mpr outcome.symm
              rw [selected] at isSelected
              cases isSelected
            | _ => rfl

/-- A function that other calls have added is no danger to a call: its check does not end the check of the call, and
where the call fits it, it stands behind another candidate or is what one of the others stands for. -/
def HarmlessCandidate (before after : FuncTable Ty) (step : CallStep program) (autoRef : Option Ty) (i : Nat) : Prop :=
  (rankCandidate step.scope step.call autoRef after.funcs i).isStopped = false ∧
    ∀ v, rankCandidate step.scope step.call autoRef after.funcs i = .viable v →
      (∃ w ∈ rankedCandidates step.scope before step.name step.call autoRef, w.key < v.key) ∨
        (TopsAgree (rankedCandidates step.scope before step.name step.call autoRef) ∧
          ∃ k ∈ callCandidates step.scope before.funcs step.name,
            rankCandidate step.scope step.call autoRef after.funcs k = .viable v)

/-- Other calls, which have taken one table to another, leave a call alone: its candidates fit in their table and are
those it had before and harmless ones. -/
structure Undisturbed (before after : FuncTable Ty) (step : CallStep program) : Prop where
  room : (callCandidates step.scope after.funcs step.name).length ≤ MAX_CALL_CANDIDATES
  kept : ∀ i ∈ callCandidates step.scope before.funcs step.name, i ∈ callCandidates step.scope after.funcs step.name
  harmless : ∀ autoRef, autoRefType step.scope step.call = .ok autoRef →
    ∀ i ∈ callCandidates step.scope after.funcs step.name, before.funcs.length ≤ i →
      HarmlessCandidate before after step autoRef i

end

section

variable {Fn Fn' : Type}

@[simp] theorem Viable.key_mapFn (f : Fn → Fn') (v : Viable Fn) : (v.mapFn f).key = v.key := rfl

theorem TopsAgree.mapFn {l : List (Viable Fn)} (agree : TopsAgree l) (f : Fn → Fn') :
    TopsAgree (l.map (Viable.mapFn f)) := by
  have topOf : ∀ {v : Viable Fn}, IsTop (l.map (Viable.mapFn f)) (v.mapFn f) → IsTop l v :=
    fun top w mem => top (w.mapFn f) (List.mem_map_of_mem mem)
  intro t memT u memU topT topU
  obtain ⟨v, memV, rfl⟩ := List.mem_map.mp memT
  obtain ⟨w, memW, rfl⟩ := List.mem_map.mp memU
  exact agree v memV w memW (topOf topT) (topOf topU)

/-- Renaming the targets renames the one that is selected, where no two of them get one name. -/
theorem selectTarget_map {l : List (Judged (Viable CallTarget))} (f : CallTarget → CallTarget)
    (distinct : ∀ v ∈ viables l, ∀ w ∈ viables l, f v.fn = f w.fn → v.fn = w.fn) :
    selectTarget (l.map (Judged.map (Viable.mapFn f))) = (selectTarget l).map f := by
  have renamed : run compareViable ((viables l).map (Viable.mapFn f)) =
      (run compareViable (viables l)).map fun found => (found.1.mapFn f, found.2) :=
    run_map (Viable.mapFn f) fun v memV w memW => compareViable_mapFn f (distinct v memV w memW)
  simp only [selectTarget, viables_map, renamed, List.any_map, Function.comp_def, Judged.isStopped_map]
  by_cases stops : l.any Judged.isStopped = true
  · simp only [stops, if_true, Option.map_none]
  · simp only [stops]
    cases run compareViable (viables l) with
    | none => rfl
    | some best =>
      obtain ⟨v, tied⟩ := best
      cases tied <;> rfl

theorem selectTarget_mem {l : List (Judged (Viable CallTarget))} {target : CallTarget}
    (selected : selectTarget l = some target) : ∃ v ∈ viables l, v.fn = target := by
  simp only [selectTarget] at selected
  split at selected
  · cases selected
  · cases ran : run compareViable (viables l) with
    | none => rw [ran] at selected; cases selected
    | some best =>
      obtain ⟨v, tied⟩ := best
      rw [ran] at selected
      cases tied with
      | true => cases selected
      | false => exact ⟨v, run_mem compareViable ran, by simpa [found] using selected⟩

end

section

variable {Ty : Type} [DecidableEq Ty] {program : CallProgram Ty} {before after : FuncTable Ty} {step : CallStep program}
  {autoRef : Option Ty}

theorem Undisturbed.candidates_filter (undisturbed : Undisturbed before after step)
    (grows : GrowsTo step.scope.types before.funcs after.funcs) :
    (callCandidates step.scope after.funcs step.name).filter (fun i => decide (i < before.funcs.length)) =
      callCandidates step.scope before.funcs step.name := by
  obtain ⟨news, grown, _⟩ := grows
  have kept := undisturbed.kept
  rw [grown] at kept ⊢
  exact callCandidates_filter kept

/-- What the own candidates of a call come to in the grown table. -/
theorem own_map (grows : GrowsTo step.scope.types before.funcs after.funcs) :
    (callCandidates step.scope before.funcs step.name).map (rankCandidate step.scope step.call autoRef after.funcs) =
      ((callCandidates step.scope before.funcs step.name).map
        (rankCandidate step.scope step.call autoRef before.funcs)).map
          (Judged.map (mapFn (carried step.scope step.call autoRef after.funcs))) := by
  rw [List.map_map]
  apply List.map_congr_left
  intro i mem
  exact rankCandidate_grown grows (callCandidates_bound i mem)

/-- The candidates that other calls have added do not change which target is selected. -/
theorem Undisturbed.selectTarget_eq (undisturbed : Undisturbed before after step)
    (grows : GrowsTo step.scope.types before.funcs after.funcs) (typed : autoRefType step.scope step.call = .ok autoRef) :
    selectTarget ((callCandidates step.scope after.funcs step.name).map
        (rankCandidate step.scope step.call autoRef after.funcs)) =
      selectTarget ((callCandidates step.scope before.funcs step.name).map
        (rankCandidate step.scope step.call autoRef after.funcs)) := by
  have own := undisturbed.candidates_filter grows
  have harmless := undisturbed.harmless autoRef typed
  have sameStops : ((callCandidates step.scope after.funcs step.name).map
        (rankCandidate step.scope step.call autoRef after.funcs)).any Judged.isStopped =
      ((callCandidates step.scope before.funcs step.name).map
        (rankCandidate step.scope step.call autoRef after.funcs)).any Judged.isStopped := by
    rw [Bool.eq_iff_iff]
    simp only [List.any_map, List.any_eq_true, Function.comp_apply]
    constructor
    · rintro ⟨i, mem, stops⟩
      by_cases old : i < before.funcs.length
      · refine ⟨i, ?_, stops⟩
        rw [← own]
        exact List.mem_filter.mpr ⟨mem, by simpa using old⟩
      · rw [(harmless i mem (by omega)).1] at stops
        cases stops
    · rintro ⟨i, mem, stops⟩
      exact ⟨i, undisturbed.kept i mem, stops⟩
  have carriedOwn : viables ((callCandidates step.scope before.funcs step.name).map
        (rankCandidate step.scope step.call autoRef after.funcs)) =
      (rankedCandidates step.scope before step.name step.call autoRef).map
        (mapFn (carried step.scope step.call autoRef after.funcs)) := by
    rw [own_map grows, viables_map]
    rfl
  have lengths : ∀ v ∈ viables ((callCandidates step.scope after.funcs step.name).map
      (rankCandidate step.scope step.call autoRef after.funcs)), v.costs.length = step.call.args.length :=
    fun v mem => rankedCandidates_length v mem
  have kept : ∀ v ∈ viables ((callCandidates step.scope before.funcs step.name).map
        (rankCandidate step.scope step.call autoRef after.funcs)),
      v ∈ viables ((callCandidates step.scope after.funcs step.name).map
        (rankCandidate step.scope step.call autoRef after.funcs)) := by
    intro v mem
    obtain ⟨i, memI, viable⟩ := List.mem_map.mp (mem_viables.mp mem)
    exact mem_viables.mpr (List.mem_map.mpr ⟨i, undisturbed.kept i memI, viable⟩)
  have sameFound : found Viable.fn (run compareViable (viables ((callCandidates step.scope after.funcs step.name).map
        (rankCandidate step.scope step.call autoRef after.funcs)))) =
      found Viable.fn (run compareViable (viables ((callCandidates step.scope before.funcs step.name).map
        (rankCandidate step.scope step.call autoRef after.funcs)))) := by
    -- each candidate is an own one, or behind one of those, or the same as one of those of a rank that agrees
    by_cases agree : TopsAgree (rankedCandidates step.scope before step.name step.call autoRef)
    · have agreeOwn := agree.mapFn (carried step.scope step.call autoRef after.funcs)
      rw [← carriedOwn] at agreeOwn
      refine agreeOwn.found_more lengths kept ?_
      intro v mem
      obtain ⟨i, memI, viable⟩ := List.mem_map.mp (mem_viables.mp mem)
      by_cases old : i < before.funcs.length
      · left
        have isOwn : i ∈ callCandidates step.scope before.funcs step.name := by
          rw [← own]
          exact List.mem_filter.mpr ⟨memI, by simpa using old⟩
        exact mem_viables.mpr (List.mem_map.mpr ⟨i, isOwn, viable⟩)
      · rcases (harmless i memI (by omega)).2 v viable with ⟨w, memW, less⟩ | ⟨_, k, memK, same⟩
        · right
          rw [carriedOwn]
          exact ⟨_, List.mem_map_of_mem memW, less⟩
        · left
          exact mem_viables.mpr (List.mem_map.mpr ⟨k, memK, same⟩)
    · have behind : ∀ i ∈ callCandidates step.scope after.funcs step.name, ¬ i < before.funcs.length → ∀ v,
          rankCandidate step.scope step.call autoRef after.funcs i = .viable v →
          ∃ w ∈ viables ((callCandidates step.scope before.funcs step.name).map
            (rankCandidate step.scope step.call autoRef after.funcs)), w.key < v.key := by
        intro i memI new v viable
        rcases (harmless i memI (by omega)).2 v viable with ⟨w, memW, less⟩ | ⟨agree', _⟩
        · rw [carriedOwn]
          exact ⟨_, List.mem_map_of_mem memW, less⟩
        · exact absurd agree' agree
      congr 1
      refine run_least lengths ?_ kept ?_
      · intro rank _ least
        rw [← own]
        apply filter_viables_map
        intro i memI new v viable
        obtain ⟨w, memW, less⟩ := behind i memI (by simpa using new) v viable
        have above := least w memW
        simpa using (lt_of_le_of_lt above less).ne'
      · intro v mem
        obtain ⟨i, memI, viable⟩ := List.mem_map.mp (mem_viables.mp mem)
        by_cases old : i < before.funcs.length
        · have isOwn : i ∈ callCandidates step.scope before.funcs step.name := by
            rw [← own]
            exact List.mem_filter.mpr ⟨memI, by simpa using old⟩
          exact ⟨v, mem_viables.mpr (List.mem_map.mpr ⟨i, isOwn, viable⟩), le_rfl⟩
        · obtain ⟨w, memW, less⟩ := behind i memI old v viable
          exact ⟨w, memW, less.le⟩
  simp only [selectTarget, sameStops, sameFound]

/-- A call that the calls before it leave alone goes to the function it would go to if it were the first. -/
theorem Undisturbed.calledFunction_eq (undisturbed : Undisturbed before after step)
    (run : CallRun program before after) : calledFunction after step = calledFunction before step := by
  have grows := run.grows
  rw [← step.sameTypes] at grows
  have own := undisturbed.candidates_filter grows
  have room : (callCandidates step.scope before.funcs step.name).length ≤ MAX_CALL_CANDIDATES := by
    rw [← own]
    exact (List.length_filter_le _ _).trans undisturbed.room
  rw [HopHop.calledFunction_eq undisturbed.room, HopHop.calledFunction_eq room]
  by_cases many : MAX_CALL_ARGS < step.call.args.length
  · rw [if_pos many, if_pos many]
  · rw [if_neg many, if_neg many]
    cases typed : autoRefType step.scope step.call with
    | error r => rfl
    | ok autoRef =>
      simp only
      rw [undisturbed.selectTarget_eq grows typed, own_map grows, selectTarget_map]
      · cases selected : selectTarget ((callCandidates step.scope before.funcs step.name).map
            (rankCandidate step.scope step.call autoRef before.funcs)) with
        | none => rfl
        | some target =>
          obtain ⟨v, mem, isTarget⟩ := selectTarget_mem selected
          obtain ⟨i, memI, viable⟩ := List.mem_map.mp (mem_viables.mp mem)
          rw [← isTarget]
          simp only [Option.map_some, Option.bind_some]
          rw [targetEntry_carried grows (callCandidates_bound i memI) viable]
      · intro v memV w memW same
        obtain ⟨i, memI, viableV⟩ := List.mem_map.mp (mem_viables.mp memV)
        obtain ⟨k, memK, viableW⟩ := List.mem_map.mp (mem_viables.mp memW)
        exact carried_injective grows (callCandidates_bound i memI) (callCandidates_bound k memK) viableV viableW same

end

section

variable {Ty : Type} [DecidableEq Ty] {program : CallProgram Ty}

/-- A call that is the first one is left alone. -/
theorem Undisturbed.refl {before : FuncTable Ty} {step : CallStep program}
    (room : (callCandidates step.scope before.funcs step.name).length ≤ MAX_CALL_CANDIDATES) :
    Undisturbed before before step where
  room := room
  kept _ mem := mem
  harmless _ _ i mem new := absurd (callCandidates_bound i mem) (by omega)

/-- Whether a call is accepted, and the function it goes to, are the same whatever calls are checked before it. -/
def CallIndependent (before : FuncTable Ty) (step : CallStep program) : Prop :=
  ∀ after after' : FuncTable Ty, CallRun program before after → CallRun program before after' →
    calledFunction after step = calledFunction after' step

end

/-- A template that is called with a constant and with a variable of type `i64`. -/
def idSource : String := "fn id(x anytype) int { return 1 } fn main() { var a i64 = 2; id(1); id(a) }"

/-- The types `i64` and that of an integer constant. -/
def idI64 : TypeId := some 10

def idUntypedInt : TypeId := some 19

def idTypes : TypeTable := TypeTable.initial (bytesOf idSource) ⟨[], -1⟩ 32

def idProgram : CallProgram TypeId := ⟨bytesOf idSource, idTypes.callTypes⟩

/-- The expressions of both calls: node 1 is the constant, all others are the variable. -/
def idScope : CallScope TypeId where
  src := bytesOf idSource
  types := idTypes.callTypes
  activeExpectedCallType := none
  exprNeedsExpectedType _ := false
  exprIsCompoundTemporary _ := false
  exprIsAssignable node := node != 1
  typeExpr _ node := if node = 1 then some idUntypedInt else some idI64
  typeExprExpected _ node _ := if node = 1 then some idUntypedInt else some idI64
  evalConstExprNode node := some (node == 1)
  findForwardedConstParamCallSpan _ := none
  checkConstBlocksForCall _ _ _ := .passed

def idTemplate : TCFunction TypeId where
  name := ⟨3, 5⟩
  returnType := some pickInt
  contextType := none
  params := [⟨⟨6, 7⟩, idTypes.typeAnytype, false⟩]
  declNode := 1
  templateArgs := []
  templateRootFuncIndex := none
  variadic := false
  template := true
  templateInstance := false

def idTable : FuncTable TypeId := .ofDeclared [idTemplate] (by decide)

/-- The call with the constant. -/
def idConst : CallStep idProgram where
  scope := idScope
  name := ⟨61, 63⟩
  site := ⟨[⟨1, 64, 65, .absent, .absent, false⟩], 0, false⟩
  sameSrc := rfl
  sameTypes := rfl

/-- The call with the variable. -/
def idVar : CallStep idProgram where
  scope := idScope
  name := ⟨68, 70⟩
  site := ⟨[⟨2, 71, 72, .absent, ⟨71, 72⟩, false⟩], 0, false⟩
  sameSrc := rfl
  sameTypes := rfl

/-- The instance that the second of two calls with the variable finds leaves it alone. -/
theorem idVar_undisturbed : Undisturbed idTable (idTable.check idVar) idVar where
  room := by decide
  kept := by decide
  harmless := by
    have noRef : autoRefType idVar.scope idVar.call = .ok none := rfl
    have own : rankedCandidates idVar.scope idTable idVar.name idVar.call none =
        [⟨.newInstance 0, [0], false, true⟩] := by decide
    have candidates : callCandidates idVar.scope (idTable.check idVar).funcs idVar.name = [0, 1] := by decide
    have ranks : rankCandidate idVar.scope idVar.call none (idTable.check idVar).funcs 0 =
          .viable ⟨.function 1, [0], false, true⟩ ∧
        rankCandidate idVar.scope idVar.call none (idTable.check idVar).funcs 1 =
          .viable ⟨.function 1, [0], false, true⟩ := by decide
    have ownCandidates : callCandidates idVar.scope idTable.funcs idVar.name = [0] := by decide
    intro autoRef typed i mem new
    rw [noRef, Except.ok.injEq] at typed
    rw [candidates] at mem
    have isNew : i = 1 := by
      simp only [idTable, FuncTable.ofDeclared, List.length_singleton] at new
      simp only [List.mem_cons, List.not_mem_nil, or_false] at mem
      omega
    rw [isNew, ← typed, HarmlessCandidate, ranks.2, own, ownCandidates]
    refine ⟨rfl, fun v viable => .inr ⟨?_, 0, List.mem_singleton_self 0, by rw [ranks.1, viable]⟩⟩
    intro t memT u memU _ _
    rw [List.mem_singleton.mp memT, List.mem_singleton.mp memU]

end HopHop
