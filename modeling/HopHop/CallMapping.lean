import HopHop.CallArgs
import Mathlib.Data.Finset.Card

namespace HopHop

section

variable (src : List UInt8) (names : List NameRange) (first : Nat)

/-- The parameter of a name, among those behind the first positional one. -/
def paramOfName (name : NameRange) : Option Nat :=
  (List.range names.length).find? fun p => first < p ∧ name.eqSlice src (paramName names p)

/-- The parameter an argument belongs to, whatever the other arguments are. -/
def argPlace (i : Nat) (a : CallArgInfo) : Option Nat :=
  if i < first then some i
  else if i = first then
    if a.explicitName.isPresent ∧ ¬ a.explicitName.eqSlice src (paramName names first) then none else some first
  else if a.explicitName.isPresent then paramOfName src names first a.explicitName
  else if i < positionalCallPrefixEnd src names first then some i
  else if a.implicitName.isPresent then paramOfName src names first a.implicitName
  else none

/-- What a call owes its parameters: every argument is bound where it belongs, and every parameter is where exactly one
argument belongs. -/
structure ArgsPlaced (args : List CallArgInfo) (mapped : MappedArgs) : Prop where
  fits : names.length ≤ MAX_CALL_ARGS
  length : mapped.length = names.length
  placed : ∀ i a, args[i]? = some a →
    ∃ p, argPlace src names first i a = some p ∧ mapped[p]? = some (some a.exprNode)
  unique : ∀ p < names.length, ∃! i, ∃ a, args[i]? = some a ∧ argPlace src names first i a = some p

variable {src names first}

theorem paramOfName_eq_some {name : NameRange} {p : Nat} (found : paramOfName src names first name = some p) :
    first < p ∧ p < names.length := by
  have meets := List.find?_some found
  have within := List.mem_of_find?_eq_some found
  simp only [decide_eq_true_eq] at meets
  exact ⟨meets.1, List.mem_range.mp within⟩

theorem argPlace_lt {i p : Nat} {a : CallArgInfo} (within : i < names.length)
    (place : argPlace src names first i a = some p) : p < names.length := by
  simp only [argPlace] at place
  split_ifs at place with before atFirst mismatch named inPrefix implicit
  · exact Option.some.inj place ▸ within
  · exact Option.some.inj place ▸ atFirst ▸ within
  · exact (paramOfName_eq_some place).2
  · exact Option.some.inj place ▸ within
  · exact (paramOfName_eq_some place).2

theorem mapNamedArg_eq_ok {a : CallArgInfo} {name : NameRange} {before after : MappedArgs} :
    mapNamedArg src names first a name before = .ok after ↔
      ∃ p, paramOfName src names first name = some p ∧ before[p]?.join = none ∧
        after = before.set p (some a.exprNode) := by
  simp only [mapNamedArg, ← paramOfName.eq_def]
  cases paramOfName src names first name with
  | none => simp
  | some p =>
    cases slot : before[p]?.join with
    | none => simp [slot, eq_comm]
    | some e => simp [slot]

/-- An argument other than the first positional one is written to its place. -/
theorem mapArg_place {i : Nat} {a : CallArgInfo} {before after : MappedArgs} (other : i ≠ first)
    (made : mapArg src names first i a before = .ok after) :
    ∃ p, argPlace src names first i a = some p ∧ after = before.set p (some a.exprNode) := by
  simp only [mapArg, argPlace, if_neg other] at made ⊢
  split_ifs at made ⊢ with early named inPrefix implicit
  · exact ⟨i, rfl, (Except.ok.inj made).symm⟩
  · obtain ⟨p, place, -, written⟩ := mapNamedArg_eq_ok.mp made
    exact ⟨p, place, written⟩
  · exact ⟨i, rfl, (Except.ok.inj made).symm⟩
  · obtain ⟨p, place, -, written⟩ := mapNamedArg_eq_ok.mp made
    exact ⟨p, place, written⟩

theorem mapArg_of_free {i p : Nat} {a : CallArgInfo} {before : MappedArgs} (other : i ≠ first)
    (place : argPlace src names first i a = some p) (free : before[p]?.join = none) :
    mapArg src names first i a before = .ok (before.set p (some a.exprNode)) := by
  simp only [mapArg, argPlace, if_neg other] at place ⊢
  split_ifs at place ⊢ with early named inPrefix implicit
  · rw [Option.some.inj place]
  · exact mapNamedArg_eq_ok.mpr ⟨p, place, free, rfl⟩
  · rw [Option.some.inj place]
  · exact mapNamedArg_eq_ok.mpr ⟨p, place, free, rfl⟩

theorem mapArg_first {a : CallArgInfo} {before : MappedArgs} :
    mapArg src names first first a before = .ok before := by
  simp [mapArg]

variable (src names first) in
/-- What a run over the arguments from the `i`th on leaves: each one's place is filled, and what changed was written by
an argument that belongs there. -/
structure SlotsFilled (i : Nat) (args : List CallArgInfo) (before after : MappedArgs) : Prop where
  length : after.length = before.length
  placed : ∀ k a, args[k]? = some a → i + k ≠ first →
    ∃ p, argPlace src names first (i + k) a = some p ∧ ∃ e, after[p]? = some (some e)
  kept : ∀ p, after[p]? = before[p]? ∨ ∃ k a, args[k]? = some a ∧ i + k ≠ first ∧
    argPlace src names first (i + k) a = some p ∧ after[p]? = some (some a.exprNode)

namespace SlotsFilled

variable {i p : Nat} {a : CallArgInfo} {rest : List CallArgInfo} {before after : MappedArgs}

theorem nil : SlotsFilled src names first i [] before before where
  length := rfl
  placed k a here := by simp at here
  kept p := .inl rfl

/-- The later arguments are later arguments of the whole list. -/
theorem later (run : SlotsFilled src names first (i + 1) rest before after) {k : Nat} {b : CallArgInfo}
    (here : (a :: rest)[k + 1]? = some b) (other : i + (k + 1) ≠ first) :
    ∃ p, argPlace src names first (i + (k + 1)) b = some p ∧ ∃ e, after[p]? = some (some e) := by
  have shift : i + (k + 1) = i + 1 + k := by omega
  rw [shift] at other ⊢
  exact run.placed k b (by simpa using here) other

theorem wrote (run : SlotsFilled src names first (i + 1) rest before after) (p : Nat) :
    after[p]? = before[p]? ∨ ∃ k b, (a :: rest)[k]? = some b ∧ i + k ≠ first ∧
      argPlace src names first (i + k) b = some p ∧ after[p]? = some (some b.exprNode) := by
  rcases run.kept p with same | ⟨k, b, here, other, place, value⟩
  · exact .inl same
  · have shift : i + (k + 1) = i + 1 + k := by omega
    exact .inr ⟨k + 1, b, by simpa using here, shift ▸ other, shift ▸ place, value⟩

theorem skip (run : SlotsFilled src names first (first + 1) rest before after) :
    SlotsFilled src names first first (a :: rest) before after where
  length := run.length
  placed k b here other := by
    cases k with
    | zero => exact absurd rfl other
    | succ k => exact run.later here other
  kept := run.wrote

theorem cons (other : i ≠ first) (place : argPlace src names first i a = some p) (within : p < before.length)
    (run : SlotsFilled src names first (i + 1) rest (before.set p (some a.exprNode)) after) :
    SlotsFilled src names first i (a :: rest) before after where
  length := by rw [run.length, List.length_set]
  placed k b here notFirst := by
    cases k with
    | zero =>
      obtain rfl : a = b := by simpa using here
      rcases run.kept p with same | ⟨_, later, _, _, _, value⟩
      · exact ⟨p, place, a.exprNode, by rw [same, List.getElem?_set_self within]⟩
      · exact ⟨p, place, later.exprNode, value⟩
    | succ k => exact run.later here notFirst
  kept q := by
    rcases run.wrote q with same | writer
    · by_cases there : p = q
      · subst there
        exact .inr ⟨0, a, rfl, other, place, by rw [same, List.getElem?_set_self within]⟩
      · exact .inl (by rw [same, List.getElem?_set_ne there])
    · exact .inr writer

end SlotsFilled

theorem mapArgsFrom_filled {i : Nat} {args : List CallArgInfo} {before after : MappedArgs}
    (length : before.length = names.length) (within : i + args.length ≤ names.length)
    (made : mapArgsFrom src names first i args before = .ok after) :
    SlotsFilled src names first i args before after := by
  induction args generalizing i before with
  | nil =>
    obtain rfl := Except.ok.inj made
    exact .nil
  | cons a rest ih =>
    rw [List.length_cons] at within
    simp only [mapArgsFrom] at made
    cases step : mapArg src names first i a before with
    | error e => simp [step] at made
    | ok next =>
      simp only [step] at made
      by_cases here : i = first
      · subst here
        obtain rfl := Except.ok.inj (mapArg_first.symm.trans step)
        exact .skip (ih length (by omega) made)
      · obtain ⟨p, place, rfl⟩ := mapArg_place here step
        have bound : p < before.length := length ▸ argPlace_lt (by omega) place
        exact .cons here place bound (ih (by simpa using length) (by omega) made)

/-- The run goes through when the places of the arguments are free and apart. -/
theorem mapArgsFrom_of_free {i : Nat} {args : List CallArgInfo} {before : MappedArgs}
    (free : ∀ k a, args[k]? = some a → i + k ≠ first →
      ∃ p, argPlace src names first (i + k) a = some p ∧ before[p]?.join = none)
    (apart : ∀ k l a b p, args[k]? = some a → args[l]? = some b → argPlace src names first (i + k) a = some p →
      argPlace src names first (i + l) b = some p → k = l) :
    ∃ after, mapArgsFrom src names first i args before = .ok after := by
  induction args generalizing i before with
  | nil => exact ⟨before, rfl⟩
  | cons a rest ih =>
    have shift (k : Nat) : i + 1 + k = i + (k + 1) := by omega
    have apart' : ∀ k l a b p, rest[k]? = some a → rest[l]? = some b →
        argPlace src names first (i + 1 + k) a = some p → argPlace src names first (i + 1 + l) b = some p → k = l := by
      intro k l b c p hereB hereC placeB placeC
      rw [shift] at placeB placeC
      have := apart (k + 1) (l + 1) b c p (by simpa using hereB) (by simpa using hereC) placeB placeC
      omega
    by_cases here : i = first
    · subst here
      simp only [mapArgsFrom, mapArg_first]
      refine ih (fun k b at' other => ?_) apart'
      rw [shift] at other ⊢
      exact free (k + 1) b (by simpa using at') other
    · obtain ⟨p, place, empty⟩ := free 0 a rfl here
      simp only [mapArgsFrom, mapArg_of_free here place empty]
      refine ih (fun k b at' other => ?_) apart'
      rw [shift] at other ⊢
      obtain ⟨q, placeB, emptyB⟩ := free (k + 1) b (by simpa using at') other
      have differ : p ≠ q := by
        rintro rfl
        have := apart 0 (k + 1) a b p rfl (by simpa using at') place placeB
        omega
      exact ⟨q, placeB, by rwa [List.getElem?_set_ne differ]⟩

theorem argPlace_first {a : CallArgInfo} {p : Nat} (place : argPlace src names first first a = some p) : first = p := by
  simp only [argPlace, lt_irrefl, if_false, if_true] at place
  split_ifs at place
  exact Option.some.inj place

/-- The first positional argument goes through when it belongs to its own place. -/
theorem mapFirstArg_eq_ok {args : List CallArgInfo} {before after : MappedArgs} :
    mapFirstArg src names first args before = .ok after ↔
      (args[first]? = none ∧ after = before) ∨ ∃ a, args[first]? = some a ∧
        argPlace src names first first a = some first ∧ after = before.set first (some a.exprNode) := by
  simp only [mapFirstArg, argPlace, lt_irrefl, if_false, if_true]
  cases args[first]? with
  | none => simp only [Except.ok.injEq, true_and, reduceCtorEq, false_and, exists_false, or_false]; exact eq_comm
  | some a =>
    by_cases mismatch : a.explicitName.isPresent ∧ ¬ a.explicitName.eqSlice src (paramName names first)
    · simp [mismatch]
    · simp only [if_neg mismatch, Except.ok.injEq, reduceCtorEq, false_and, false_or, Option.some.injEq,
        exists_eq_left', true_and]
      exact eq_comm

/-- The three loops of the mapping. -/
theorem mapCallArgsToParams_eq_ok {args : List CallArgInfo} {mapped : MappedArgs} :
    mapCallArgsToParams src names first args = .ok mapped ↔
      names.length ≤ MAX_CALL_ARGS ∧ args.length ≤ names.length ∧
        (∃ start, mapFirstArg src names first args (names.map fun _ => none) = .ok start ∧
          mapArgsFrom src names first 0 args start = .ok mapped) ∧ ∀ slot ∈ mapped, slot.isSome := by
  simp only [mapCallArgsToParams]
  split_ifs with misfit
  · simp only [false_iff]
    omega
  · have fits : names.length ≤ MAX_CALL_ARGS ∧ args.length ≤ names.length := by omega
    cases begun : mapFirstArg src names first args (names.map fun _ => none) with
    | error e => simp
    | ok start =>
      cases run : mapArgsFrom src names first 0 args start with
      | error e => simp [run]
      | ok after =>
        simp only [fits, Except.ok.injEq, exists_eq_left', run, true_and]
        cases missing : after.findIdx? (·.isNone) with
        | none =>
          have complete : ∀ slot ∈ after, slot.isSome := by simpa using List.findIdx?_eq_none_iff.mp missing
          simp only [Except.ok.injEq]
          exact ⟨fun same => ⟨same, same ▸ complete⟩, And.left⟩
        | some p =>
          simp only [reduceCtorEq, false_iff]
          rintro ⟨rfl, complete⟩
          have none' : after.findIdx? (·.isNone) = none := List.findIdx?_eq_none_iff.mpr (by simpa using complete)
          rw [none'] at missing
          cases missing

section

variable {args : List CallArgInfo} {mapped : MappedArgs}

theorem start_length {start : MappedArgs}
    (begun : mapFirstArg src names first args (names.map fun _ => none) = .ok start) : start.length = names.length := by
  rcases mapFirstArg_eq_ok.mp begun with ⟨-, rfl⟩ | ⟨_, -, -, rfl⟩ <;> simp

/-- The first positional argument was written before the others, and no other argument writes to its place. -/
theorem start_get {start : MappedArgs} (begun : mapFirstArg src names first args (names.map fun _ => none) = .ok start)
    {p : Nat} (value : start[p]?.join ≠ none) :
    ∃ a, args[first]? = some a ∧ argPlace src names first first a = some p ∧ start[p]? = some (some a.exprNode) := by
  have bare (q : Nat) : (names.map fun _ => (none : Option Nat))[q]?.join = none := by
    rw [List.getElem?_map]
    cases names[q]? <;> rfl
  rcases mapFirstArg_eq_ok.mp begun with ⟨-, rfl⟩ | ⟨a, here, place, rfl⟩
  · exact absurd (bare p) value
  · by_cases there : first = p
    · subst there
      by_cases within : first < names.length
      · exact ⟨a, here, place, List.getElem?_set_self (by simpa using within)⟩
      · rw [List.getElem?_eq_none (by simpa using within)] at value
        exact absurd rfl value
    · rw [List.getElem?_set_ne there] at value
      exact absurd (bare p) value

/-- A mapping is a run over the arguments that leaves no slot empty. -/
theorem exists_filled (made : mapCallArgsToParams src names first args = .ok mapped) :
    ∃ start, mapFirstArg src names first args (names.map fun _ => none) = .ok start ∧
      SlotsFilled src names first 0 args start mapped ∧ args.length ≤ names.length ∧ ∀ slot ∈ mapped, slot.isSome := by
  obtain ⟨-, fewer, ⟨start, begun, run⟩, complete⟩ := mapCallArgsToParams_eq_ok.mp made
  exact ⟨start, begun, mapArgsFrom_filled (start_length begun) (by omega) run, fewer, complete⟩

/-- Every parameter's expression is that of an argument that belongs there. -/
theorem slot_covered (made : mapCallArgsToParams src names first args = .ok mapped) {p : Nat}
    (within : p < names.length) :
    ∃ i a, args[i]? = some a ∧ argPlace src names first i a = some p ∧ mapped[p]? = some (some a.exprNode) := by
  obtain ⟨start, begun, filled, -, complete⟩ := exists_filled made
  have inside : p < mapped.length := by rw [filled.length, start_length begun]; exact within
  rcases filled.kept p with same | ⟨k, a, here, -, place, value⟩
  · have value : start[p]?.join ≠ none := by
      rw [← same, List.getElem?_eq_getElem inside]
      exact Option.ne_none_iff_isSome.mpr (complete _ (List.getElem_mem inside))
    obtain ⟨a, here, place, written⟩ := start_get begun value
    exact ⟨first, a, here, place, same.trans written⟩
  · rw [Nat.zero_add] at place
    exact ⟨k, a, here, place, value⟩

theorem arg_belongs (made : mapCallArgsToParams src names first args = .ok mapped) {i : Nat} {a : CallArgInfo}
    (here : args[i]? = some a) : ∃ p, argPlace src names first i a = some p ∧ p < names.length := by
  obtain ⟨start, begun, filled, fewer, -⟩ := exists_filled made
  have inside : i < args.length := (List.getElem?_eq_some_iff.mp here).1
  by_cases atFirst : i = first
  · subst atFirst
    rcases mapFirstArg_eq_ok.mp begun with ⟨absent, -⟩ | ⟨b, there, place, -⟩
    · simp [here] at absent
    · obtain rfl : a = b := Option.some.inj (here.symm.trans there)
      exact ⟨i, place, by omega⟩
  · obtain ⟨p, place, -⟩ := filled.placed i a here (by omega)
    rw [Nat.zero_add] at place
    exact ⟨p, place, argPlace_lt (by omega) place⟩

theorem mapped_length (made : mapCallArgsToParams src names first args = .ok mapped) :
    mapped.length = names.length := by
  obtain ⟨start, begun, filled, -, -⟩ := exists_filled made
  rw [filled.length, start_length begun]

variable (src names first args) in
/-- The places of the arguments as a function of their index. -/
def placeOf (i : Nat) : Nat := (args[i]?.bind (argPlace src names first i)).getD names.length

theorem placeOf_eq {i p : Nat} {a : CallArgInfo} (here : args[i]? = some a)
    (place : argPlace src names first i a = some p) : placeOf src names first args i = p := by
  simp [placeOf, here, place]

/-- No two arguments belong to one parameter. -/
def PlacesApart (src : List UInt8) (names : List NameRange) (first : Nat) (args : List CallArgInfo) : Prop :=
  Set.InjOn (placeOf src names first args) (Finset.range args.length)

theorem PlacesApart.index_eq (apart : PlacesApart src names first args) {i j p : Nat} {a b : CallArgInfo}
    (hereA : args[i]? = some a) (hereB : args[j]? = some b) (placeA : argPlace src names first i a = some p)
    (placeB : argPlace src names first j b = some p) : i = j := by
  have withinA : i < args.length := (List.getElem?_eq_some_iff.mp hereA).1
  have withinB : j < args.length := (List.getElem?_eq_some_iff.mp hereB).1
  exact apart (by simpa using withinA) (by simpa using withinB)
    ((placeOf_eq hereA placeA).trans (placeOf_eq hereB placeB).symm)

theorem placeOf_mapsTo
    (belong : ∀ i a, args[i]? = some a → ∃ p, argPlace src names first i a = some p ∧ p < names.length) :
    Set.MapsTo (placeOf src names first args) (Finset.range args.length) (Finset.range names.length) := by
  intro i within
  have here := List.getElem?_eq_getElem (by simpa using within : i < args.length)
  obtain ⟨p, place, bound⟩ := belong i _ here
  rw [placeOf_eq here place]
  simpa using bound

/-- A call has no more arguments than there are parameters: when every parameter has an argument, it has only one. -/
theorem apart_of_covered (made : mapCallArgsToParams src names first args = .ok mapped) :
    PlacesApart src names first args := by
  have fewer := (mapCallArgsToParams_eq_ok.mp made).2.1
  refine Finset.injOn_of_surjOn_of_card_le _ (placeOf_mapsTo fun _ _ => arg_belongs made) ?_ (by simpa using fewer)
  intro p within
  obtain ⟨i, a, here, place, -⟩ := slot_covered made (by simpa using within : p < names.length)
  have inside : i < args.length := (List.getElem?_eq_some_iff.mp here).1
  exact ⟨i, by simpa using inside, placeOf_eq here place⟩

end

theorem argsPlaced_of_made {args : List CallArgInfo} {mapped : MappedArgs}
    (made : mapCallArgsToParams src names first args = .ok mapped) : ArgsPlaced src names first args mapped where
  fits := (mapCallArgsToParams_eq_ok.mp made).1
  length := mapped_length made
  placed i a here := by
    obtain ⟨p, place, within⟩ := arg_belongs made here
    obtain ⟨j, b, there, place', value⟩ := slot_covered made within
    obtain rfl := (apart_of_covered made).index_eq here there place place'
    obtain rfl : a = b := Option.some.inj (here.symm.trans there)
    exact ⟨p, place, value⟩
  unique p within := by
    obtain ⟨i, a, here, place, -⟩ := slot_covered made within
    refine ⟨i, ⟨a, here, place⟩, ?_⟩
    rintro j ⟨b, there, place'⟩
    exact (apart_of_covered made).index_eq there here place' place

namespace ArgsPlaced

variable {args : List CallArgInfo} {mapped : MappedArgs}

theorem value_of_place (good : ArgsPlaced src names first args mapped) {i p : Nat} {a : CallArgInfo}
    (here : args[i]? = some a) (place : argPlace src names first i a = some p) :
    mapped[p]? = some (some a.exprNode) := by
  obtain ⟨q, place', value⟩ := good.placed i a here
  rwa [Option.some.inj (place.symm.trans place')]

theorem place_lt (good : ArgsPlaced src names first args mapped) {i p : Nat} {a : CallArgInfo}
    (here : args[i]? = some a) (place : argPlace src names first i a = some p) : p < names.length := by
  have := (List.getElem?_eq_some_iff.mp (good.value_of_place here place)).1
  rwa [good.length] at this

theorem apart (good : ArgsPlaced src names first args mapped) : PlacesApart src names first args := by
  intro i atI j atJ same
  have hereI := List.getElem?_eq_getElem (by simpa using atI : i < args.length)
  have hereJ := List.getElem?_eq_getElem (by simpa using atJ : j < args.length)
  obtain ⟨p, placeI, -⟩ := good.placed i _ hereI
  obtain ⟨q, placeJ, -⟩ := good.placed j _ hereJ
  rw [placeOf_eq hereI placeI, placeOf_eq hereJ placeJ] at same
  subst same
  exact (good.unique p (good.place_lt hereI placeI)).unique ⟨_, hereI, placeI⟩ ⟨_, hereJ, placeJ⟩

theorem fewer (good : ArgsPlaced src names first args mapped) : args.length ≤ names.length := by
  have within : Set.MapsTo (placeOf src names first args) (Finset.range args.length) (Finset.range names.length) := by
    refine placeOf_mapsTo fun i a here => ?_
    obtain ⟨p, place, -⟩ := good.placed i a here
    exact ⟨p, place, good.place_lt here place⟩
  simpa using Finset.card_le_card_of_injOn _ within good.apart

theorem begins (good : ArgsPlaced src names first args mapped) :
    ∃ start, mapFirstArg src names first args (names.map fun _ => none) = .ok start := by
  cases here : args[first]? with
  | none => exact ⟨_, mapFirstArg_eq_ok.mpr (.inl ⟨here, rfl⟩)⟩
  | some a =>
    obtain ⟨p, place, -⟩ := good.placed first a here
    obtain rfl := argPlace_first place
    exact ⟨_, mapFirstArg_eq_ok.mpr (.inr ⟨a, here, place, rfl⟩)⟩

/-- No slot is left empty. -/
theorem complete (good : ArgsPlaced src names first args mapped) {start after : MappedArgs}
    (begun : mapFirstArg src names first args (names.map fun _ => none) = .ok start)
    (filled : SlotsFilled src names first 0 args start after) : ∀ slot ∈ after, slot.isSome := by
  intro slot member
  obtain ⟨p, inside, rfl⟩ := List.getElem_of_mem member
  have within : p < names.length := by rwa [filled.length, start_length begun] at inside
  obtain ⟨i, ⟨a, here, place⟩, -⟩ := good.unique p within
  have present : ∃ e, after[p]? = some (some e) := by
    by_cases atFirst : i = first
    · subst atFirst
      obtain rfl := argPlace_first place
      rcases filled.kept i with same | ⟨_, b, -, -, -, value⟩
      · rcases mapFirstArg_eq_ok.mp begun with ⟨absent, -⟩ | ⟨b, -, -, rfl⟩
        · simp [here] at absent
        · exact ⟨b.exprNode, by rw [same, List.getElem?_set_self (by simpa using within)]⟩
      · exact ⟨b.exprNode, value⟩
    · obtain ⟨q, place', e, value⟩ := filled.placed i a here (by omega)
      rw [Nat.zero_add] at place'
      obtain rfl := Option.some.inj (place.symm.trans place')
      exact ⟨e, value⟩
  obtain ⟨e, value⟩ := present
  rw [List.getElem?_eq_getElem inside] at value
  rw [Option.some.inj value]
  rfl

theorem succeeds (good : ArgsPlaced src names first args mapped) :
    ∃ after, mapCallArgsToParams src names first args = .ok after := by
  obtain ⟨start, begun⟩ := good.begins
  have run : ∃ after, mapArgsFrom src names first 0 args start = .ok after := by
    apply mapArgsFrom_of_free
    · intro k a here other
      obtain ⟨p, place, -⟩ := good.placed k a here
      rw [Nat.zero_add] at other ⊢
      refine ⟨p, place, ?_⟩
      by_contra value
      obtain ⟨b, there, place', -⟩ := start_get begun value
      exact other (good.apart.index_eq here there place place')
    · intro k l a b p hereA hereB placeA placeB
      rw [Nat.zero_add] at placeA placeB
      exact good.apart.index_eq hereA hereB placeA placeB
  obtain ⟨after, run⟩ := run
  have fewer := good.fewer
  have filled := mapArgsFrom_filled (start_length begun) (by omega) run
  exact ⟨after, mapCallArgsToParams_eq_ok.mpr ⟨good.fits, fewer, ⟨start, begun, run⟩, good.complete begun filled⟩⟩

/-- The places of the arguments leave no choice. -/
theorem mapped_eq (good : ArgsPlaced src names first args mapped) {other : MappedArgs}
    (good' : ArgsPlaced src names first args other) : mapped = other := by
  apply List.ext_getElem?
  intro p
  by_cases within : p < names.length
  · obtain ⟨i, ⟨a, here, place⟩, -⟩ := good.unique p within
    rw [good.value_of_place here place, good'.value_of_place here place]
  · rw [List.getElem?_eq_none (by rw [good.length]; omega), List.getElem?_eq_none (by rw [good'.length]; omega)]

end ArgsPlaced

/-- A call is mapped exactly when its arguments belong to the parameters one by one, and then each is bound where it
belongs. That a positional argument is written without a look at its slot does no harm: the parameter that then goes
without an argument fails the call. -/
theorem mapCallArgsToParams_iff (src : List UInt8) (names : List NameRange) (first : Nat) (args : List CallArgInfo)
    (mapped : MappedArgs) :
    mapCallArgsToParams src names first args = .ok mapped ↔ ArgsPlaced src names first args mapped := by
  constructor
  · exact argsPlaced_of_made
  · intro good
    obtain ⟨after, made⟩ := good.succeeds
    rw [made, good.mapped_eq (argsPlaced_of_made made)]

-- `f(7, _b: 8, 9)`: the named argument takes the slot of the third one, which then writes over it.
example :
    let arg (node : Nat) (name : NameRange) : CallArgInfo := ⟨node, 0, 0, name, .absent, false⟩
    mapCallArgsToParams [120, 95, 97, 95, 98, 95, 98] [⟨0, 1⟩, ⟨1, 3⟩, ⟨3, 5⟩] 0
      [arg 7 .absent, arg 8 ⟨5, 7⟩, arg 9 .absent] = .error ⟨.CALL_ARG_MISSING, 0, 0, 1, 3⟩ := by decide

end

end HopHop
