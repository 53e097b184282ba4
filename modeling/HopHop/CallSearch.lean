import HopHop.CallRank

namespace HopHop

open RunningBest

namespace Judged

variable {α β : Type}

def viable? : Judged α → Option α
  | .viable found => some found
  | _ => none

def isStopped : Judged α → Bool
  | .stopped => true
  | _ => false

/-- The code of the error a candidate was turned down with. -/
def errorCode : Judged α → DiagCode
  | .unmatched e => e.code
  | .rejected e _ _ => e.code
  | _ => .NONE

def mutRefTemp : Judged α → Option Nat
  | .rejected _ _ mutRefTempArgNode => mutRefTempArgNode
  | _ => none

@[simp] theorem viable?_map (f : α → β) (j : Judged α) : (j.map f).viable? = j.viable?.map f := by cases j <;> rfl

@[simp] theorem isStopped_map (f : α → β) (j : Judged α) : (j.map f).isStopped = j.isStopped := by cases j <;> rfl

@[simp] theorem errorCode_map (f : α → β) (j : Judged α) : (j.map f).errorCode = j.errorCode := by cases j <;> rfl

@[simp] theorem mutRefTemp_map (f : α → β) (j : Judged α) : (j.map f).mutRefTemp = j.mutRefTemp := by cases j <;> rfl

end Judged

/-- The viable ones among the candidates of a call. -/
def viables {α : Type} (l : List (Judged α)) : List α := l.filterMap Judged.viable?

theorem mem_viables {α : Type} {l : List (Judged α)} {v : α} : v ∈ viables l ↔ .viable v ∈ l := by
  rw [viables, List.mem_filterMap]
  constructor
  · rintro ⟨j, mem, isViable⟩
    cases j with
    | viable found =>
      simp only [Judged.viable?, Option.some.injEq] at isViable
      exact isViable ▸ mem
    | stopped => cases isViable
    | unmatched e => cases isViable
    | rejected e total node => cases isViable
  · intro mem
    exact ⟨.viable v, mem, rfl⟩

theorem viables_map {α β : Type} (f : α → β) (l : List (Judged α)) :
    viables (l.map (Judged.map f)) = (viables l).map f := by
  simp only [viables, List.filterMap_map, List.map_filterMap, Function.comp_def, Judged.viable?_map]

namespace Search

/-- What is found once all candidates of a list have been noted. -/
def noteAll : Search → List (Judged (Viable Nat)) → Option Search
  | search, [] => some search
  | search, j :: rest =>
    match search.note j with
    | none => none
    | some search => noteAll search rest

theorem noteUnmatched_best (search : Search) (e : CallMapError) : (search.noteUnmatched e).best = search.best := by
  simp only [noteUnmatched]
  split <;> rfl

theorem noteRejected_best (search : Search) (e : CallMapError) (total : Nat) (node : Option Nat) :
    (search.noteRejected e total node).best = search.best := by
  simp only [noteRejected]
  split <;> split <;> rfl

theorem noteUnmatched_mapError (search : Search) (e : CallMapError) :
    (search.noteUnmatched e).mapError.isSome ↔ search.mapError.isSome ∨ e.code ≠ .NONE := by
  cases had : search.mapError with
  | none => by_cases none' : e.code = .NONE <;> simp [noteUnmatched, had, none']
  | some earlier => simp [noteUnmatched, had]

theorem noteRejected_mapError (search : Search) (e : CallMapError) (total : Nat) (node : Option Nat) :
    (search.noteRejected e total node).mapError.isSome ↔ search.mapError.isSome ∨ e.code ≠ .NONE := by
  cases had : search.mapError with
  | none => by_cases none' : e.code = .NONE <;> simp [noteRejected, had, none']
  | some earlier =>
    simp only [noteRejected, had]
    split <;> simp

theorem noteUnmatched_mutRef (search : Search) (e : CallMapError) :
    (search.noteUnmatched e).mutRefTempArgNode = search.mutRefTempArgNode := by
  simp only [noteUnmatched]
  split <;> rfl

theorem noteRejected_mutRef (search : Search) (e : CallMapError) (total : Nat) (node : Option Nat) :
    (search.noteRejected e total node).mutRefTempArgNode = search.mutRefTempArgNode.or node := by
  simp only [noteRejected]
  split <;> split <;> rfl

/-- What noting one candidate does to each part of the search. -/
theorem note_spec {search search' : Search} {j : Judged (Viable Nat)} (noted : search.note j = some search') :
    j.isStopped = false
      ∧ search'.best = (j.viable?.map (step compareViable search.best)).getD search.best
      ∧ (search'.mapError.isSome ↔ search.mapError.isSome ∨ j.errorCode ≠ .NONE)
      ∧ (search'.mutRefTempArgNode.isSome ↔ search.mutRefTempArgNode.isSome ∨ j.mutRefTemp.isSome) := by
  cases j with
  | stopped => cases noted
  | unmatched e =>
    cases noted
    refine ⟨rfl, search.noteUnmatched_best e, search.noteUnmatched_mapError e, ?_⟩
    simp [search.noteUnmatched_mutRef e, Judged.mutRefTemp]
  | rejected e total node =>
    cases noted
    refine ⟨rfl, search.noteRejected_best e total node, search.noteRejected_mapError e total node, ?_⟩
    simp [search.noteRejected_mutRef e total node, Judged.mutRefTemp]
  | viable v =>
    cases noted
    exact ⟨rfl, rfl, by simp [noteViable, Judged.errorCode], by simp [noteViable, Judged.mutRefTemp]⟩

theorem note_isNone {search : Search} {j : Judged (Viable Nat)} : search.note j = none ↔ j.isStopped = true := by
  cases j <;> simp [note, Judged.isStopped]

/-- What noting a list of candidates does to each part of the search. -/
theorem noteAll_spec {search search' : Search} {l : List (Judged (Viable Nat))}
    (noted : search.noteAll l = some search') :
    (∀ j ∈ l, j.isStopped = false)
      ∧ search'.best = (viables l).foldl (step compareViable) search.best
      ∧ (search'.mapError.isSome ↔ search.mapError.isSome ∨ ∃ j ∈ l, j.errorCode ≠ .NONE)
      ∧ (search'.mutRefTempArgNode.isSome ↔ search.mutRefTempArgNode.isSome ∨ ∃ j ∈ l, j.mutRefTemp.isSome) := by
  induction l generalizing search with
  | nil =>
    cases noted
    simp [viables]
  | cons j rest ih =>
    simp only [noteAll] at noted
    cases first : search.note j with
    | none => rw [first] at noted; cases noted
    | some mid =>
      rw [first] at noted
      obtain ⟨running, best, mapError, mutRef⟩ := note_spec first
      obtain ⟨running', best', mapError', mutRef'⟩ := ih noted
      have bests : search'.best = (viables (j :: rest)).foldl (step compareViable) search.best := by
        rw [best', best]
        cases j <;> rfl
      refine ⟨?_, bests, ?_, ?_⟩
      · intro k mem
        rcases List.mem_cons.mp mem with same | later
        · rw [same]; exact running
        · exact running' k later
      · rw [mapError', mapError]
        simp [or_assoc]
      · rw [mutRef', mutRef]
        simp [or_assoc]

theorem noteAll_isNone {search : Search} {l : List (Judged (Viable Nat))} :
    search.noteAll l = none ↔ ∃ j ∈ l, j.isStopped = true := by
  induction l generalizing search with
  | nil => simp [noteAll]
  | cons j rest ih =>
    simp only [noteAll]
    cases first : search.note j with
    | none => simp [note_isNone.mp first]
    | some mid =>
      have running := (note_spec first).1
      simp [ih, running]

end Search

/-- What a call comes to, without the texts: the function it goes to, or the reason why there is none. -/
inductive CallOutcome (Fn : Type)
  | chosen (fn : Fn) | noName | noMatch | ambiguous | mutRefTemp | inferAmbiguous | mapError | stopped
  deriving DecidableEq, Repr

def CallOutcome.map {Fn Fn' : Type} (f : Fn → Fn') : CallOutcome Fn → CallOutcome Fn'
  | .chosen fn => .chosen (f fn)
  | .noName => .noName
  | .noMatch => .noMatch
  | .ambiguous => .ambiguous
  | .mutRefTemp => .mutRefTemp
  | .inferAmbiguous => .inferAmbiguous
  | .mapError => .mapError
  | .stopped => .stopped

def CallResult.outcome : CallResult → CallOutcome Nat
  | .chosen fnIndex => .chosen fnIndex
  | .noName => .noName
  | .noMatch => .noMatch
  | .ambiguous => .ambiguous
  | .mutRefTemp _ => .mutRefTemp
  | .inferAmbiguous => .inferAmbiguous
  | .mapError _ => .mapError
  | .stopped => .stopped

section

variable {Fn : Type} [DecidableEq Fn]

/-- The outcome of a call in terms of what its candidates come to. -/
def selectOutcome (hasExpectedDependentArg : Bool) (l : List (Judged (Viable Fn))) : CallOutcome Fn :=
  if l.any Judged.isStopped then .stopped
  else
    match found Viable.fn (run compareViable (viables l)) with
    | .chosen fn => .chosen fn
    | .tied => if hasExpectedDependentArg then .inferAmbiguous else .ambiguous
    | .nothing =>
      if l.any fun j => j.errorCode ≠ .NONE then .mapError
      else if l.any fun j => j.mutRefTemp.isSome then .mutRefTemp
      else .noMatch

/-- The result of a search over the candidates of a call. -/
theorem Search.result_outcome {search : Search} {l : List (Judged (Viable Nat))} (hasExpectedDependentArg : Bool)
    (noted : Search.start.noteAll l = some search) :
    (search.result hasExpectedDependentArg).outcome = selectOutcome hasExpectedDependentArg l := by
  obtain ⟨running, best, mapError, mutRef⟩ := noteAll_spec noted
  have noStop : l.any Judged.isStopped = false := by
    rw [List.any_eq_false]
    intro j mem
    simp [running j mem]
  have sameBest : run compareViable (viables l) = search.best := best.symm
  have sameError : (l.any fun j => decide (j.errorCode ≠ .NONE)) = search.mapError.isSome := by
    rw [Bool.eq_iff_iff, mapError]
    simp [Search.start]
  have sameNode : (l.any fun j => j.mutRefTemp.isSome) = search.mutRefTempArgNode.isSome := by
    rw [Bool.eq_iff_iff, mutRef]
    simp [Search.start]
  simp only [selectOutcome, noStop, sameBest, sameError, sameNode, Search.result]
  cases search.best with
  | some found =>
    obtain ⟨v, tied⟩ := found
    cases tied with
    | false => rfl
    | true => cases hasExpectedDependentArg <;> rfl
  | none =>
    cases search.mapError with
    | some e => rfl
    | none => cases search.mutRefTempArgNode <;> rfl

/-- The candidate with another name for its function. -/
def Viable.mapFn {Fn' : Type} (f : Fn → Fn') (v : Viable Fn) : Viable Fn' :=
  { fn := f v.fn, costs := v.costs, variadic := v.variadic, templateInstance := v.templateInstance }

theorem compareViable_mapFn {Fn' : Type} [DecidableEq Fn'] (f : Fn → Fn') {cur best : Viable Fn}
    (distinct : f cur.fn = f best.fn → cur.fn = best.fn) :
    compareViable (cur.mapFn f) (best.mapFn f) = compareViable cur best := by
  by_cases same : cur.fn = best.fn
  · simp [compareViable, Viable.mapFn, same]
  · have other : f cur.fn ≠ f best.fn := fun sameName => same (distinct sameName)
    simp only [compareViable, Viable.mapFn, same, other, ne_eq, not_false_eq_true, and_true]
    congr

/-- Renaming the functions of the candidates renames the outcome, where no two of them get one name. -/
theorem selectOutcome_map {Fn' : Type} [DecidableEq Fn'] (f : Fn → Fn') (hasExpectedDependentArg : Bool)
    {l : List (Judged (Viable Fn))} (distinct : ∀ v ∈ viables l, ∀ w ∈ viables l, f v.fn = f w.fn → v.fn = w.fn) :
    selectOutcome hasExpectedDependentArg (l.map (Judged.map (Viable.mapFn f))) =
      (selectOutcome hasExpectedDependentArg l).map f := by
  have renamed : run compareViable ((viables l).map (Viable.mapFn f)) =
      (run compareViable (viables l)).map fun found => (found.1.mapFn f, found.2) :=
    run_map (Viable.mapFn f) fun v memV w memW => compareViable_mapFn f (distinct v memV w memW)
  simp only [selectOutcome, viables_map, renamed, List.any_map, Function.comp_def, Judged.isStopped_map,
    Judged.errorCode_map, Judged.mutRefTemp_map]
  by_cases stops : l.any Judged.isStopped = true
  · simp only [stops, if_true, CallOutcome.map]
  · simp only [stops]
    cases run compareViable (viables l) with
    | some best =>
      obtain ⟨v, tied⟩ := best
      cases tied with
      | false => rfl
      | true => cases hasExpectedDependentArg <;> rfl
    | none =>
      simp only [Option.map_none, found]
      cases l.any fun j => decide (j.errorCode ≠ .NONE) with
      | true => rfl
      | false => cases l.any fun j => j.mutRefTemp.isSome <;> rfl

/-- The order of the candidates does not matter where those of the first rank agree. -/
theorem selectOutcome_perm {l l' : List (Judged (Viable Fn))} {n : Nat} (hasExpectedDependentArg : Bool)
    (agree : TopsAgree (viables l)) (lengths : ∀ v ∈ viables l, v.costs.length = n) (perm : l.Perm l') :
    selectOutcome hasExpectedDependentArg l = selectOutcome hasExpectedDependentArg l' := by
  have sameFound : found Viable.fn (run compareViable (viables l)) = found Viable.fn (run compareViable (viables l')) :=
    (agree.champions lengths).found_perm (perm.filterMap _)
  simp only [selectOutcome, sameFound, perm.any_eq]

/-- The end of a call's check does not depend on the order of its candidates. -/
theorem selectOutcome_stopped {l : List (Judged (Viable Fn))} (hasExpectedDependentArg : Bool) {j : Judged (Viable Fn)}
    (mem : j ∈ l) (stops : j.isStopped = true) : selectOutcome hasExpectedDependentArg l = .stopped := by
  have any : l.any Judged.isStopped = true := List.any_eq_true.mpr ⟨j, mem, stops⟩
  simp only [selectOutcome, any, if_true]

end

end HopHop
