import HopHop.CallHistory

namespace HopHop

open RunningBest Viable

section

variable {Ty : Type}

theorem zipWith_types_take (params : List (FnParam Ty)) (types : List Ty) :
    List.zipWith (fun param type => { param with type := type }) params types =
      List.zipWith (fun param type => { param with type := type }) params (types.take params.length) := by
  induction params generalizing types with
  | nil => simp
  | cons param params ih =>
    cases types with
    | nil => rfl
    | cons type types => simpa using ih types

theorem map_type_zipWith {params : List (FnParam Ty)} {types : List Ty} (enough : params.length ≤ types.length) :
    (List.zipWith (fun param type => { param with type := type }) params types).map FnParam.type =
      types.take params.length := by
  induction params generalizing types with
  | nil => simp
  | cons param params ih =>
    cases types with
    | nil => simp at enough
    | cons type types =>
      simp only [List.length_cons, Nat.add_le_add_iff_right] at enough
      simpa using ih enough

variable [DecidableEq Ty]

/-- An instance that is found for a key is the one that would be made for it. -/
theorem newInstance_eq_of_found {types : CallTypes Ty} {fn : TCFunction Ty} {r : Nat} {key key' : InstanceKey Ty}
    (isFound : fn.isInstanceOf key (fn.newInstance types r key') = true) :
    fn.newInstance types r key' = fn.newInstance types r key := by
  simp only [TCFunction.isInstanceOf, TCFunction.newInstance, decide_eq_true_eq] at isFound
  obtain ⟨_, _, count, _, _, _, sameArgs, sameTypes, _⟩ := isFound
  rw [List.length_zipWith] at count
  rw [map_type_zipWith (by omega)] at sameTypes
  simp only [TCFunction.newInstance, TCFunction.substituted, sameArgs, ← sameTypes]
  rw [zipWith_types_take fn.params key'.paramTypes]

variable {scope : CallScope Ty} {call : CollectedCall} {autoRef : Option Ty} {before after : FuncTable Ty}

/-- A function that stands for a candidate without an instance being made is found again in a grown table. -/
theorem standIn_grown {funcs news : List (TCFunction Ty)} {fnIndex : Nat} {fn : TCFunction Ty}
    (notNew : ∀ g, standIn scope call autoRef funcs fnIndex fn ≠ .ok (.inr g)) :
    standIn scope call autoRef (funcs ++ news) fnIndex fn = standIn scope call autoRef funcs fnIndex fn := by
  simp only [standIn] at notNew ⊢
  split
  · rfl
  · rename_i isTemplate
    split
    · rfl
    · rename_i fits
      split
      · rfl
      · rename_i needs
        cases keyed : instanceKey scope call autoRef fn with
        | error e => rfl
        | ok key =>
          cases foundAt : funcs.findIdx? (fn.isInstanceOf key) with
          | some j => simp only [List.findIdx?_append, foundAt, Option.some_or]
          | none =>
            refine absurd ?_ (notNew (fn.newInstance scope.types fnIndex key))
            rw [if_neg isTemplate, if_neg fits, if_neg needs, keyed]
            simp only [foundAt]

/-- An instance that a call would make is in the grown table already, or is still to be made there. -/
theorem standIn_grown_new (grows : GrowsTo scope.types before.funcs after.funcs) {i : Nat} {fn g : TCFunction Ty}
    (atIndex : before.funcs[i]? = some fn) (stands : standIn scope call autoRef before.funcs i fn = .ok (.inr g)) :
    standIn scope call autoRef after.funcs i fn = .ok (.inr g) ∨
      ∃ j, before.funcs.length ≤ j ∧ after.funcs[j]? = some g ∧
        standIn scope call autoRef after.funcs i fn = .ok (.inl j) := by
  obtain ⟨news, grown, instances⟩ := grows
  obtain ⟨key, _, notFound, made, everywhere⟩ := standIn_inr stands
  rw [everywhere after.funcs, grown, List.findIdx?_append, notFound, Option.none_or]
  cases foundAt : news.findIdx? (fn.isInstanceOf key) with
  | none =>
    left
    rw [made]
    rfl
  | some k =>
    right
    have boundK := (List.findIdx?_eq_some_iff_getElem.mp foundAt).1
    obtain ⟨g', atK⟩ : ∃ g', news[k]? = some g' := ⟨_, List.getElem?_eq_getElem boundK⟩
    have isFound : fn.isInstanceOf key g' = true := by
      have holds := (List.findIdx?_eq_some_iff_getElem.mp foundAt).2.1
      rwa [(List.getElem?_eq_some_iff.mp atK).2] at holds
    obtain ⟨r, fn', key', atR, declaration', isMade⟩ := instances g' (List.mem_of_getElem? atK)
    have declaration := (standIn_new stands).2.2.2
    have sameDecl : fn'.declNode = fn.declNode := by
      have decl := isFound
      rw [isMade] at decl
      simp only [TCFunction.isInstanceOf, decide_eq_true_eq] at decl
      exact decl.1
    have sameIndex := before.declared r i fn' fn atR atIndex declaration' declaration sameDecl
    have sameFn : fn' = fn := by
      rw [sameIndex, atIndex, Option.some.injEq] at atR
      exact atR.symm
    rw [sameFn, sameIndex] at isMade
    refine ⟨k + before.funcs.length, by omega, ?_, rfl⟩
    rw [List.getElem?_append_right (by omega), Nat.add_sub_cancel, atK, made, isMade,
      newInstance_eq_of_found (isMade ▸ isFound)]

/-- The function behind a target: one of the table, or the instance that is to be made. -/
def targetEntry (scope : CallScope Ty) (call : CollectedCall) (autoRef : Option Ty) (funcs : List (TCFunction Ty)) :
    CallTarget → Option (TCFunction Ty)
  | .function j => funcs[j]?
  | .newInstance i =>
    funcs[i]?.bind fun fn =>
      match standIn scope call autoRef funcs i fn with
      | .ok (.inr g) => some g
      | _ => none

/-- A target in a grown table: an instance that was to be made may be there by now. -/
def carried (scope : CallScope Ty) (call : CollectedCall) (autoRef : Option Ty) (funcs : List (TCFunction Ty)) :
    CallTarget → CallTarget
  | .function j => .function j
  | .newInstance i =>
    match funcs[i]?.map (standIn scope call autoRef funcs i) with
    | some (.ok (.inl j)) => .function j
    | _ => .newInstance i

theorem rankCandidate_error {funcs : List (TCFunction Ty)} {i : Nat} {fn : TCFunction Ty} {e : NoInstance}
    (atIndex : funcs[i]? = some fn) (stands : standIn scope call autoRef funcs i fn = .error e) :
    rankCandidate scope call autoRef funcs i = match e with | .stopped => .stopped | .unmatched e => .unmatched e := by
  rw [rankCandidate, evaluateCandidate_error atIndex stands]
  cases e <;> rfl

theorem rankCandidate_old {funcs : List (TCFunction Ty)} {i j : Nat} {fn g : TCFunction Ty}
    (atIndex : funcs[i]? = some fn) (stands : standIn scope call autoRef funcs i fn = .ok (.inl j))
    (atJ : funcs[j]? = some g) :
    rankCandidate scope call autoRef funcs i = judgeStandIn scope call autoRef (.function j) g := by
  have boundJ := (List.getElem?_eq_some_iff.mp atJ).1
  rw [rankCandidate, evaluateCandidate_old atIndex stands atJ, judgeStandIn_map, targetOf_old boundJ]

theorem rankCandidate_new {funcs : List (TCFunction Ty)} {i : Nat} {fn g : TCFunction Ty}
    (atIndex : funcs[i]? = some fn) (stands : standIn scope call autoRef funcs i fn = .ok (.inr g)) :
    rankCandidate scope call autoRef funcs i = judgeStandIn scope call autoRef (.newInstance i) g := by
  rw [rankCandidate, evaluateCandidate_new atIndex stands, judgeStandIn_map,
    targetOf_new le_rfl (standIn_new stands).2.1]

/-- What a candidate comes to in a grown table is what it came to before, with its target carried over. -/
theorem rankCandidate_grown (grows : GrowsTo scope.types before.funcs after.funcs) {i : Nat}
    (own : i < before.funcs.length) :
    rankCandidate scope call autoRef after.funcs i =
      (rankCandidate scope call autoRef before.funcs i).map (mapFn (carried scope call autoRef after.funcs)) := by
  obtain ⟨fn, atIndex⟩ : ∃ fn, before.funcs[i]? = some fn := ⟨_, List.getElem?_eq_getElem own⟩
  have atIndex' : after.funcs[i]? = some fn := by
    obtain ⟨news, grown, _⟩ := grows
    rw [grown, List.getElem?_append_left own, atIndex]
  have sameStandIn : (∀ g, standIn scope call autoRef before.funcs i fn ≠ .ok (.inr g)) →
      standIn scope call autoRef after.funcs i fn = standIn scope call autoRef before.funcs i fn := by
    intro notNew
    obtain ⟨news, grown, _⟩ := grows
    rw [grown, standIn_grown notNew]
  cases stands : standIn scope call autoRef before.funcs i fn with
  | error e =>
    have stands' := (sameStandIn (by simp [stands])).trans stands
    rw [rankCandidate_error atIndex stands, rankCandidate_error atIndex' stands']
    cases e <;> rfl
  | ok standing =>
    cases standing with
    | inl j =>
      have stands' := (sameStandIn (by simp [stands])).trans stands
      have boundJ := standIn_bound own stands
      obtain ⟨g, atJ⟩ : ∃ g, before.funcs[j]? = some g := ⟨_, List.getElem?_eq_getElem boundJ⟩
      have atJ' : after.funcs[j]? = some g := by
        obtain ⟨news, grown, _⟩ := grows
        rw [grown, List.getElem?_append_left boundJ, atJ]
      rw [rankCandidate_old atIndex stands atJ, rankCandidate_old atIndex' stands' atJ', judgeStandIn_map]
      rfl
    | inr g =>
      rw [rankCandidate_new atIndex stands, judgeStandIn_map]
      rcases standIn_grown_new grows atIndex stands with still | ⟨j, _, atJ, foundAt⟩
      · rw [rankCandidate_new atIndex' still]
        simp only [carried, atIndex', Option.map_some, still]
      · rw [rankCandidate_old atIndex' foundAt atJ]
        simp only [carried, atIndex', Option.map_some, foundAt]

/-- What is known of a viable candidate: the function behind it, in the table or still to be made. -/
theorem rankCandidate_viable_cases {funcs : List (TCFunction Ty)} {i : Nat} {v : Viable CallTarget}
    (viable : rankCandidate scope call autoRef funcs i = .viable v) :
    ∃ fn g, funcs[i]? = some fn ∧
      ((∃ j, standIn scope call autoRef funcs i fn = .ok (.inl j) ∧ funcs[j]? = some g ∧ v.fn = .function j) ∨
        (standIn scope call autoRef funcs i fn = .ok (.inr g) ∧ v.fn = .newInstance i)) := by
  cases atIndex : funcs[i]? with
  | none => simp [rankCandidate, evaluateCandidate, atIndex, Judged.map] at viable
  | some fn =>
    have inTable : i < funcs.length := (List.getElem?_eq_some_iff.mp atIndex).1
    cases stands : standIn scope call autoRef funcs i fn with
    | error e =>
      rw [rankCandidate_error atIndex stands] at viable
      cases e <;> cases viable
    | ok standing =>
      cases standing with
      | inl j =>
        have boundJ := standIn_bound inTable stands
        have atJ := List.getElem?_eq_getElem boundJ
        rw [rankCandidate_old atIndex stands atJ] at viable
        exact ⟨fn, _, rfl, .inl ⟨j, stands, atJ, (judgeStandIn_viable viable).1⟩⟩
      | inr g =>
        rw [rankCandidate_new atIndex stands] at viable
        exact ⟨fn, g, rfl, .inr ⟨stands, (judgeStandIn_viable viable).1⟩⟩

/-- The function behind a target stays the same as the table grows. -/
theorem targetEntry_carried (grows : GrowsTo scope.types before.funcs after.funcs) {i : Nat}
    (own : i < before.funcs.length) {v : Viable CallTarget}
    (viable : rankCandidate scope call autoRef before.funcs i = .viable v) :
    targetEntry scope call autoRef after.funcs (carried scope call autoRef after.funcs v.fn) =
      targetEntry scope call autoRef before.funcs v.fn := by
  obtain ⟨fn, g, atIndex, cases'⟩ := rankCandidate_viable_cases viable
  obtain ⟨news, grown, _⟩ := id grows
  have atIndex' : after.funcs[i]? = some fn := by rw [grown, List.getElem?_append_left own, atIndex]
  rcases cases' with ⟨j, stands, atJ, isJ⟩ | ⟨stands, isNew⟩
  · have boundJ := standIn_bound own stands
    rw [isJ]
    simp only [carried, targetEntry, grown, List.getElem?_append_left boundJ]
  · rw [isNew]
    rcases standIn_grown_new grows atIndex stands with still | ⟨j, _, atJ, foundAt⟩
    · simp only [carried, targetEntry, atIndex, atIndex', Option.map_some, Option.bind_some, still, stands]
    · simp only [carried, targetEntry, atIndex, atIndex', Option.map_some, Option.bind_some, foundAt, stands, atJ]

/-- Different targets are carried over to different ones. -/
theorem carried_injective (grows : GrowsTo scope.types before.funcs after.funcs) {i k : Nat}
    (ownI : i < before.funcs.length) (ownK : k < before.funcs.length) {v w : Viable CallTarget}
    (viableV : rankCandidate scope call autoRef before.funcs i = .viable v)
    (viableW : rankCandidate scope call autoRef before.funcs k = .viable w)
    (same : carried scope call autoRef after.funcs v.fn = carried scope call autoRef after.funcs w.fn) :
    v.fn = w.fn := by
  obtain ⟨news, grown, _⟩ := id grows
  have carriedNew : ∀ {l : Nat} {fn g : TCFunction Ty}, l < before.funcs.length → before.funcs[l]? = some fn →
      standIn scope call autoRef before.funcs l fn = .ok (.inr g) →
      carried scope call autoRef after.funcs (.newInstance l) = .newInstance l ∨
        ∃ j, before.funcs.length ≤ j ∧ after.funcs[j]? = some g ∧
          carried scope call autoRef after.funcs (.newInstance l) = .function j := by
    intro l fn g own atIndex stands
    have atIndex' : after.funcs[l]? = some fn := by rw [grown, List.getElem?_append_left own, atIndex]
    rcases standIn_grown_new grows atIndex stands with still | ⟨j, beyond, atJ, foundAt⟩
    · left
      simp only [carried, atIndex', Option.map_some, still]
    · right
      refine ⟨j, beyond, atJ, ?_⟩
      simp only [carried, atIndex', Option.map_some, foundAt]
  obtain ⟨fnI, gI, atI, casesI⟩ := rankCandidate_viable_cases viableV
  obtain ⟨fnK, gK, atK, casesK⟩ := rankCandidate_viable_cases viableW
  rcases casesI with ⟨j, standsI, _, isV⟩ | ⟨standsI, isV⟩
  · have boundJ := standIn_bound ownI standsI
    rcases casesK with ⟨j', standsK, _, isW⟩ | ⟨standsK, isW⟩
    · rw [isV, isW] at same ⊢
      exact same
    · rw [isV, isW] at same
      rcases carriedNew ownK atK standsK with still | ⟨j', beyond, _, moved⟩
      · rw [still] at same
        cases same
      · rw [moved] at same
        simp only [carried, CallTarget.function.injEq] at same
        omega
  · rcases casesK with ⟨j', standsK, _, isW⟩ | ⟨standsK, isW⟩
    · have boundJ := standIn_bound ownK standsK
      rw [isV, isW] at same
      rcases carriedNew ownI atI standsI with still | ⟨j, beyond, _, moved⟩
      · rw [still] at same
        cases same
      · rw [moved] at same
        simp only [carried, CallTarget.function.injEq] at same
        omega
    · rw [isV, isW] at same ⊢
      rcases carriedNew ownI atI standsI with stillI | ⟨j, _, atJ, movedI⟩
      · rcases carriedNew ownK atK standsK with stillK | ⟨j', _, _, movedK⟩
        · rwa [stillI, stillK] at same
        · rw [stillI, movedK] at same
          cases same
      · rcases carriedNew ownK atK standsK with stillK | ⟨j', _, atJ', movedK⟩
        · rw [movedI, stillK] at same
          cases same
        · rw [movedI, movedK, CallTarget.function.injEq] at same
          rw [same, atJ', Option.some.injEq] at atJ
          obtain ⟨_, _, declI, declarationI⟩ := standIn_new standsI
          obtain ⟨_, _, declK, declarationK⟩ := standIn_new standsK
          have sameDecl : fnI.declNode = fnK.declNode := by rw [← declI, ← declK, atJ]
          rw [before.declared i k fnI fnK atI atK declarationI declarationK sameDecl]

/-- The target that the candidates of a call give it, if there is exactly one best. -/
def selectTarget (l : List (Judged (Viable CallTarget))) : Option CallTarget :=
  if l.any Judged.isStopped then none
  else
    match found Viable.fn (run compareViable (viables l)) with
    | .chosen target => some target
    | _ => none

theorem selectTarget_eq (hasExpectedDependentArg : Bool) (l : List (Judged (Viable CallTarget))) (target : CallTarget) :
    selectTarget l = some target ↔ selectOutcome hasExpectedDependentArg l = .chosen target := by
  simp only [selectTarget, selectOutcome]
  cases l.any Judged.isStopped with
  | true => simp
  | false =>
    simp only [Bool.false_eq_true, if_false]
    cases found Viable.fn (run compareViable (viables l)) with
    | chosen fn => simp
    | tied => cases hasExpectedDependentArg <;> simp
    | nothing =>
      simp only [reduceCtorEq, false_iff]
      split
      · simp
      · split <;> simp

end

end HopHop
