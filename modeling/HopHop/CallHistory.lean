import HopHop.OverloadContract

namespace HopHop

open RunningBest Viable

section

variable {Ty : Type}

/-- An instance of a declaration of the table. -/
def InstanceOf (types : CallTypes Ty) (funcs : List (TCFunction Ty)) (g : TCFunction Ty) : Prop :=
  ∃ (r : Nat) (fn : TCFunction Ty) (key : InstanceKey Ty),
    funcs[r]? = some fn ∧ fn.templateInstance = false ∧ g = fn.newInstance types r key

/-- A table that has grown by instances of its own declarations. -/
def GrowsTo (types : CallTypes Ty) (funcs funcs' : List (TCFunction Ty)) : Prop :=
  ∃ news, funcs' = funcs ++ news ∧ ∀ g ∈ news, InstanceOf types funcs g

variable {types : CallTypes Ty} {funcs funcs' funcs'' : List (TCFunction Ty)}

theorem InstanceOf.isInstance {g : TCFunction Ty} (instanceOf : InstanceOf types funcs g) :
    g.templateInstance = true := by
  obtain ⟨r, fn, key, _, _, rfl⟩ := instanceOf
  rfl

/-- The instances behind a table are not declarations that further instances go back to. -/
theorem InstanceOf.ofGrown {news : List (TCFunction Ty)} (instances : ∀ g ∈ news, InstanceOf types funcs g)
    {g : TCFunction Ty} (instanceOf : InstanceOf types (funcs ++ news) g) : InstanceOf types funcs g := by
  obtain ⟨r, fn, key, atR, declaration, made⟩ := instanceOf
  by_cases old : r < funcs.length
  · rw [List.getElem?_append_left old] at atR
    exact ⟨r, fn, key, atR, declaration, made⟩
  · rw [List.getElem?_append_right (by omega)] at atR
    have isInstance := (instances fn (List.mem_of_getElem? atR)).isInstance
    rw [isInstance] at declaration
    cases declaration

theorem GrowsTo.refl (funcs : List (TCFunction Ty)) : GrowsTo types funcs funcs :=
  ⟨[], (List.append_nil funcs).symm, fun _ mem => absurd mem List.not_mem_nil⟩

theorem GrowsTo.trans (first : GrowsTo types funcs funcs') (second : GrowsTo types funcs' funcs'') :
    GrowsTo types funcs funcs'' := by
  obtain ⟨news, rfl, instances⟩ := first
  obtain ⟨more, rfl, moreInstances⟩ := second
  refine ⟨news ++ more, by rw [List.append_assoc], ?_⟩
  intro g mem
  rcases List.mem_append.mp mem with early | late
  · exact instances g early
  · exact .ofGrown instances (moreInstances g late)

variable [DecidableEq Ty]

/-- What is known of an instance that is to be added. -/
theorem standIn_inr {scope : CallScope Ty} {call : CollectedCall} {autoRef : Option Ty} {fnIndex : Nat}
    {fn g : TCFunction Ty} (stands : standIn scope call autoRef funcs fnIndex fn = .ok (.inr g)) :
    ∃ key, instanceKey scope call autoRef fn = .ok key ∧ funcs.findIdx? (fn.isInstanceOf key) = none
      ∧ g = fn.newInstance scope.types fnIndex key
      ∧ ∀ funcs', standIn scope call autoRef funcs' fnIndex fn =
        (match funcs'.findIdx? (fn.isInstanceOf key) with
        | some j => .ok (.inl j)
        | none => .ok (.inr (fn.newInstance scope.types fnIndex key))) := by
  simp only [standIn] at stands ⊢
  split at stands
  · cases stands
  · rename_i isTemplate
    split at stands
    · cases stands
    · rename_i fits
      split at stands
      · cases stands
      · rename_i needs
        split at stands
        · cases stands
        · rename_i key keyed
          split at stands
          · cases stands
          · rename_i notFound
            cases stands
            refine ⟨key, keyed, notFound, rfl, ?_⟩
            intro funcs'
            cases funcs'.findIdx? (fn.isInstanceOf key) with
            | none => simp only [if_neg isTemplate, if_neg fits, if_neg needs]
            | some j => simp only [if_neg isTemplate, if_neg fits, if_neg needs]

theorem evaluateCandidate_grows (scope : CallScope Ty) (call : CollectedCall) (autoRef : Option Ty)
    (funcs : List (TCFunction Ty)) (fnIndex : Nat) :
    GrowsTo scope.types funcs (evaluateCandidate scope call autoRef funcs fnIndex).2 := by
  cases atIndex : funcs[fnIndex]? with
  | none =>
    simp only [evaluateCandidate, atIndex]
    exact .refl funcs
  | some fn =>
    have inTable : fnIndex < funcs.length := (List.getElem?_eq_some_iff.mp atIndex).1
    cases stands : standIn scope call autoRef funcs fnIndex fn with
    | error e =>
      rw [evaluateCandidate_error atIndex stands]
      exact .refl funcs
    | ok found =>
      cases found with
      | inl j =>
        have boundJ := standIn_bound inTable stands
        rw [evaluateCandidate_old atIndex stands (List.getElem?_eq_getElem boundJ)]
        exact .refl funcs
      | inr g =>
        obtain ⟨key, _, _, made, _⟩ := standIn_inr stands
        rw [evaluateCandidate_new atIndex stands]
        refine ⟨[g], rfl, ?_⟩
        intro g' mem
        rw [List.mem_singleton.mp mem]
        exact ⟨fnIndex, fn, key, atIndex, (standIn_new stands).2.2.2, made⟩

theorem tryCandidates_grows (scope : CallScope Ty) (call : CollectedCall) (autoRef : Option Ty)
    (funcs : List (TCFunction Ty)) (search : Search) (candidates : List Nat) :
    GrowsTo scope.types funcs (tryCandidates scope call autoRef funcs search candidates).2 := by
  induction candidates generalizing funcs search with
  | nil => exact .refl funcs
  | cons fnIndex rest ih =>
    have first := evaluateCandidate_grows scope call autoRef funcs fnIndex
    simp only [tryCandidates]
    split
    · exact first
    · exact first.trans (ih _ _)

/-- A call leaves the table grown by instances only. -/
theorem resolveCallByName_grows (scope : CallScope Ty) (funcs : List (TCFunction Ty)) (name : NameRange)
    (call : CollectedCall) : GrowsTo scope.types funcs (resolveCallByName scope funcs name call).2 := by
  let resolved : CollectedCall :=
    { call with firstPositionalArgIndex := adjustFirstPositional call.args call.firstPositionalArgIndex }
  simp only [resolveCallByName, resolveCallFromCandidates]
  split
  · exact .refl funcs
  · split
    · exact .refl funcs
    · cases typed : autoRefType scope resolved with
      | error r => exact .refl funcs
      | ok autoRef =>
        have after := tryCandidates_grows scope resolved autoRef funcs .start (gatherCallCandidates scope funcs name)
        simp only
        split
        · rename_i ran
          rw [ran] at after
          exact after
        · rename_i ran
          rw [ran] at after
          exact after

end

/-- What all calls of a program share: its text and its types. -/
structure CallProgram (Ty : Type) where
  src : List UInt8
  types : CallTypes Ty

/-- The check of one call of a program, in the scope it stands in. -/
structure CallStep {Ty : Type} (program : CallProgram Ty) where
  scope : CallScope Ty
  name : NameRange
  site : CollectedCall
  sameSrc : scope.src = program.src
  sameTypes : scope.types = program.types

section

variable {Ty : Type} [DecidableEq Ty] {program : CallProgram Ty}

/-- The call as it is resolved. -/
def CallStep.call (step : CallStep program) : CollectedCall :=
  { step.site with
    firstPositionalArgIndex := adjustFirstPositional step.site.args step.site.firstPositionalArgIndex }

/-- The table that the check of a call leaves. -/
def FuncTable.check (table : FuncTable Ty) (step : CallStep program) : FuncTable Ty where
  funcs := (resolveCallByName step.scope table.funcs step.name step.site).2
  declared := by
    intro i j f g atI atJ declarationF declarationG sameDecl
    obtain ⟨news, grown, instances⟩ := resolveCallByName_grows step.scope table.funcs step.name step.site
    have old : ∀ (k : Nat) (h : TCFunction Ty), (table.funcs ++ news)[k]? = some h → h.templateInstance = false →
        table.funcs[k]? = some h := by
      intro k h atK declaration
      by_cases inside : k < table.funcs.length
      · rwa [List.getElem?_append_left inside] at atK
      · rw [List.getElem?_append_right (by omega)] at atK
        have isInstance := (instances h (List.mem_of_getElem? atK)).isInstance
        rw [isInstance] at declaration
        cases declaration
    rw [grown] at atI atJ
    exact table.declared i j f g (old i f atI declarationF) (old j g atJ declarationG) declarationF declarationG sameDecl

/-- One table is reached from another by checking calls of the program, one after the other. -/
inductive CallRun (program : CallProgram Ty) (before : FuncTable Ty) : FuncTable Ty → Prop
  | start : CallRun program before before
  | next {table : FuncTable Ty} (run : CallRun program before table) (step : CallStep program) :
      CallRun program before (table.check step)

theorem CallRun.grows {before after : FuncTable Ty} (run : CallRun program before after) :
    GrowsTo program.types before.funcs after.funcs := by
  induction run with
  | start => exact .refl before.funcs
  | next run step ih =>
    rename_i table
    have last := resolveCallByName_grows step.scope table.funcs step.name step.site
    rw [step.sameTypes] at last
    exact ih.trans last

/-- What a called function is known by: its declaration and, for an instance, the types it is an instance for. -/
structure FnIdentity (Ty : Type) where
  declNode : Nat
  templateInstance : Bool
  templateArgs : List Ty
  paramTypes : List Ty
  deriving DecidableEq, Repr

def TCFunction.identity (fn : TCFunction Ty) : FnIdentity Ty :=
  ⟨fn.declNode, fn.templateInstance, fn.templateArgs, fn.params.map FnParam.type⟩

/-- The function that a call goes to when it is checked on a table, if it is accepted. -/
def calledFunction (table : FuncTable Ty) (step : CallStep program) : Option (FnIdentity Ty) :=
  match resolveCallByName step.scope table.funcs step.name step.site with
  | (.chosen fnIndex, funcs) => (funcs[fnIndex]?).map TCFunction.identity
  | _ => none

end

end HopHop
