import Mathlib.Data.List.Forall2
import Mathlib.Data.Nat.Basic

namespace HopHop

/-! Marks on the numbers below a bound, and what can be reached from some of them. -/

/-- The number is marked. -/
def isMarked (marks : List Bool) (i : Nat) : Bool := marks[i]? = some true

def markAll (marks : List Bool) (is : List Nat) : List Bool := is.foldl (fun m i => m.set i true) marks

/-- Nothing that is marked loses its mark. -/
def MarksGrow (marks marks' : List Bool) : Prop := List.Forall₂ (fun a b => a = true → b = true) marks marks'

namespace MarksGrow

theorem refl (marks : List Bool) : MarksGrow marks marks := List.forall₂_same.mpr fun _ _ marked => marked

theorem trans {a b c : List Bool} (first : MarksGrow a b) (second : MarksGrow b c) : MarksGrow a c := by
  induction first generalizing c with
  | nil => exact second
  | cons head _ ih =>
    cases second with
    | cons head' tail' => exact .cons (fun marked => head' (head marked)) (ih tail')

theorem length {marks marks' : List Bool} (grow : MarksGrow marks marks') : marks'.length = marks.length :=
  (List.Forall₂.length_eq grow).symm

theorem isMarked {marks marks' : List Bool} (grow : MarksGrow marks marks') {i : Nat}
    (marked : isMarked marks i = true) : isMarked marks' i = true := by
  induction grow generalizing i with
  | nil => simp [HopHop.isMarked] at marked
  | cons head _ ih =>
    cases i with
    | zero =>
      simp only [HopHop.isMarked, List.getElem?_cons_zero, Option.some.injEq, decide_eq_true_eq] at marked ⊢
      exact head marked
    | succ i =>
      simp only [HopHop.isMarked, List.getElem?_cons_succ] at marked ⊢
      exact ih marked

theorem set (marks : List Bool) (i : Nat) : MarksGrow marks (marks.set i true) := by
  induction marks generalizing i with
  | nil => exact .nil
  | cons head tail ih =>
    cases i with
    | zero => exact .cons (fun _ => rfl) (refl tail)
    | succ i => exact .cons (fun marked => marked) (ih i)

theorem markAll (marks : List Bool) (is : List Nat) : MarksGrow marks (markAll marks is) := by
  induction is generalizing marks with
  | nil => exact refl marks
  | cons i is ih => exact (set marks i).trans (ih _)

/-- There are fewer numbers without a mark, unless nothing changed. -/
theorem count_false {marks marks' : List Bool} (grow : MarksGrow marks marks') :
    marks' = marks ∨ marks'.count false < marks.count false := by
  have both : marks'.count false ≤ marks.count false ∧ (marks'.count false = marks.count false → marks' = marks) := by
    induction grow with
    | nil => exact ⟨le_rfl, fun _ => rfl⟩
    | @cons a b tail tail' head _ ih =>
      obtain ⟨fewer, same⟩ := ih
      cases a with
      | true =>
        rw [head rfl]
        simp only [List.count_cons, List.cons.injEq, true_and]
        exact ⟨by omega, fun equal => same (by omega)⟩
      | false =>
        cases b with
        | true =>
          simp only [List.count_cons]
          constructor
          · simp
            omega
          · simp
            omega
        | false =>
          simp only [List.count_cons, List.cons.injEq, true_and]
          exact ⟨by omega, fun equal => same (by omega)⟩
  by_cases equal : marks'.count false = marks.count false
  · exact .inl (both.2 equal)
  · exact .inr (by omega)

end MarksGrow

theorem isMarked_lt {marks : List Bool} {i : Nat} (marked : isMarked marks i = true) : i < marks.length := by
  simp only [isMarked, decide_eq_true_eq] at marked
  exact (List.getElem?_eq_some_iff.mp marked).1

theorem isMarked_set_self {marks : List Bool} {i : Nat} (inside : i < marks.length) :
    isMarked (marks.set i true) i = true := by
  simp [isMarked, inside]

theorem count_false_set_lt (marks : List Bool) (i : Nat) : (marks.set i true).count false < marks.length + 1 := by
  have bound := List.count_le_length (a := false) (l := marks.set i true)
  rw [List.length_set] at bound
  omega

theorem isMarked_set_ne {marks : List Bool} {i j : Nat} (other : i ≠ j) :
    isMarked (marks.set i true) j = isMarked marks j := by
  simp [isMarked, List.getElem?_set_ne other]

theorem isMarked_markAll {marks : List Bool} {is : List Nat} {j : Nat} :
    isMarked (markAll marks is) j = true ↔ isMarked marks j = true ∨ j < marks.length ∧ j ∈ is := by
  induction is generalizing marks with
  | nil => simp [markAll]
  | cons i is ih =>
    have next : markAll marks (i :: is) = markAll (marks.set i true) is := rfl
    rw [next, ih, List.length_set, List.mem_cons]
    by_cases here : i = j
    · rw [here]
      by_cases inside : j < marks.length
      · simp [isMarked_set_self inside, inside]
      · have outside : isMarked marks j ≠ true := fun marked => inside (isMarked_lt marked)
        have outside' : isMarked (marks.set j true) j ≠ true :=
          fun marked => inside (by simpa only [List.length_set] using isMarked_lt marked)
        simp [outside, outside', inside]
    · rw [isMarked_set_ne here]
      simp [Ne.symm here]

section Search

variable (next : Nat → List Nat)

/-- Whatever comes next after a number is marked. -/
def ClosedAt (marks : List Bool) (i : Nat) : Prop := ∀ j ∈ next i, j < marks.length → isMarked marks j = true

/-- The marks, and the queue of the marked numbers that have not been followed. -/
structure Marking where
  marks : List Bool
  queue : List Nat

def Marking.mark (m : Marking) (i : Nat) : Marking :=
  if m.marks[i]? = some false then ⟨m.marks.set i true, m.queue ++ [i]⟩ else m

/-- The search with a queue, with a bound on how many numbers are taken from it. -/
def markFrom : Nat → Marking → List Bool
  | 0, m => m.marks
  | left + 1, m =>
    match m.queue with
    | [] => m.marks
    | i :: queue => markFrom left ((next i).foldl Marking.mark ⟨m.marks, queue⟩)

/-- One pass over all numbers that marks what comes next after a marked one. -/
def markPass (marks : List Bool) : List Bool :=
  (List.range marks.length).foldl (fun m i => if isMarked m i then markAll m (next i) else m) marks

/-- Passes until one changes nothing, with a bound on how many there are. -/
def markPasses : Nat → List Bool → List Bool
  | 0, marks => marks
  | left + 1, marks =>
    let marks' := markPass next marks
    if marks' = marks then marks else markPasses left marks'

variable {next}

theorem ClosedAt.grow {marks marks' : List Bool} {i : Nat} (closed : ClosedAt next marks i)
    (grow : MarksGrow marks marks') : ClosedAt next marks' i := by
  intro j isNext inside
  rw [grow.length] at inside
  exact grow.isMarked (closed j isNext inside)

/-- What marking does: marks grow, what was marked anew is queued, and the queue grows by what the marks grow by. -/
structure Marking.Extends (m m' : Marking) : Prop where
  grow : MarksGrow m.marks m'.marks
  queued : ∀ i ∈ m.queue, i ∈ m'.queue
  new : ∀ i, isMarked m'.marks i = true → isMarked m.marks i = true ∨ i ∈ m'.queue
  work : m'.marks.count false + m'.queue.length = m.marks.count false + m.queue.length

theorem Marking.mark_extends (m : Marking) (i : Nat) :
    m.Extends (m.mark i) ∧ (i < m.marks.length → isMarked (m.mark i).marks i = true) := by
  by_cases free : m.marks[i]? = some false
  · have inside : i < m.marks.length := (List.getElem?_eq_some_iff.mp free).1
    have value : m.marks[i] = false := (List.getElem?_eq_some_iff.mp free).2
    have positive : 0 < m.marks.count false := List.count_pos_iff.mpr (value ▸ List.getElem_mem inside)
    have same : m.mark i = ⟨m.marks.set i true, m.queue ++ [i]⟩ := if_pos free
    rw [same]
    refine ⟨⟨MarksGrow.set _ _, fun j inQueue => List.mem_append_left _ inQueue, ?_, ?_⟩,
      fun _ => isMarked_set_self inside⟩
    · intro j marked
      by_cases here : i = j
      · exact .inr (List.mem_append_right _ (here ▸ List.mem_singleton_self i))
      · rw [isMarked_set_ne here] at marked
        exact .inl marked
    · have fewer : (m.marks.set i true).count false = m.marks.count false - 1 := by
        simp [List.count_set inside, value]
      simp only [fewer, List.length_append, List.length_singleton]
      omega
  · have same : m.mark i = m := if_neg free
    rw [same]
    refine ⟨⟨MarksGrow.refl _, fun j inQueue => inQueue, fun j marked => .inl marked, rfl⟩, ?_⟩
    intro inside
    rw [List.getElem?_eq_getElem inside, Option.some.injEq, Bool.not_eq_false] at free
    simp [isMarked, inside, free]

theorem Marking.Extends.trans {a b c : Marking} (first : a.Extends b) (second : b.Extends c) : a.Extends c where
  grow := first.grow.trans second.grow
  queued := fun i inQueue => second.queued i (first.queued i inQueue)
  new := by
    intro i marked
    rcases second.new i marked with before | queued
    · rcases first.new i before with before | queued
      · exact .inl before
      · exact .inr (second.queued i queued)
    · exact .inr queued
  work := second.work.trans first.work

theorem Marking.foldl_mark_extends (m : Marking) (is : List Nat) :
    m.Extends (is.foldl Marking.mark m) ∧
      ∀ i ∈ is, i < m.marks.length → isMarked (is.foldl Marking.mark m).marks i = true := by
  induction is generalizing m with
  | nil =>
    refine ⟨⟨MarksGrow.refl _, fun i inQueue => inQueue, fun i marked => .inl marked, rfl⟩, ?_⟩
    intro i none
    cases none
  | cons i is ih =>
    obtain ⟨first, here⟩ := m.mark_extends i
    obtain ⟨rest, later⟩ := ih (m.mark i)
    refine ⟨first.trans rest, ?_⟩
    intro j isIn inside
    rcases List.mem_cons.mp isIn with same | inRest
    · rw [same] at inside ⊢
      exact rest.grow.isMarked (here inside)
    · exact later j inRest (first.grow.length ▸ inside)

/-- The search leaves every mark closed: with room for all numbers that are queued or free, it ends with an empty
queue. -/
theorem markFrom_closed {left : Nat} {m : Marking} (enough : m.marks.count false + m.queue.length ≤ left)
    (open_ : ∀ i, isMarked m.marks i = true → i ∈ m.queue ∨ ClosedAt next m.marks i) :
    MarksGrow m.marks (markFrom next left m) ∧
      ∀ i, isMarked (markFrom next left m) i = true → ClosedAt next (markFrom next left m) i := by
  induction left generalizing m with
  | zero =>
    have empty : m.queue = [] := List.length_eq_zero_iff.mp (by omega)
    refine ⟨MarksGrow.refl _, fun i marked => ?_⟩
    rcases open_ i marked with queued | closed
    · rw [empty] at queued
      cases queued
    · exact closed
  | succ left ih =>
    cases queue : m.queue with
    | nil =>
      simp only [markFrom, queue]
      refine ⟨MarksGrow.refl _, fun i marked => ?_⟩
      rcases open_ i marked with queued | closed
      · rw [queue] at queued
        cases queued
      · exact closed
    | cons i rest =>
      simp only [markFrom, queue]
      obtain ⟨extends_, followed⟩ := Marking.foldl_mark_extends ⟨m.marks, rest⟩ (next i)
      have work := extends_.work
      rw [queue, List.length_cons] at enough
      have done : MarksGrow m.marks ((next i).foldl Marking.mark ⟨m.marks, rest⟩).marks := extends_.grow
      obtain ⟨grow, closed⟩ := ih (by simp only at work ⊢; omega) (m := (next i).foldl Marking.mark ⟨m.marks, rest⟩) (by
        intro j marked
        rcases extends_.new j marked with before | queued
        · rcases open_ j before with queued | closed
          · rw [queue] at queued
            rcases List.mem_cons.mp queued with here | later
            · right
              intro k isNext inside
              exact followed k (here ▸ isNext) (extends_.grow.length ▸ inside)
            · exact .inl (extends_.queued j later)
          · exact .inr (closed.grow done)
        · exact .inl queued)
      exact ⟨done.trans grow, closed⟩

/-- A pass marks what comes next after every number that was marked before it. -/
theorem markPass_spec (marks : List Bool) :
    MarksGrow marks (markPass next marks) ∧
      ∀ i, isMarked marks i = true → ∀ j ∈ next i, j < marks.length → isMarked (markPass next marks) j = true := by
  have fold : ∀ (is : List Nat) (m : List Bool), MarksGrow marks m →
      MarksGrow m (is.foldl (fun m i => if isMarked m i then markAll m (next i) else m) m) ∧
        ∀ i ∈ is, isMarked marks i = true → ∀ j ∈ next i, j < marks.length →
          isMarked (is.foldl (fun m i => if isMarked m i then markAll m (next i) else m) m) j = true := by
    intro is
    induction is with
    | nil =>
      intro m _
      refine ⟨MarksGrow.refl m, fun i none => ?_⟩
      cases none
    | cons i is ih =>
      intro m above
      have step : MarksGrow m (if isMarked m i then markAll m (next i) else m) := by
        split
        · exact MarksGrow.markAll m (next i)
        · exact MarksGrow.refl m
      obtain ⟨grow, later⟩ := ih _ (above.trans step)
      refine ⟨step.trans grow, ?_⟩
      intro k isIn marked j isNext inside
      rcases List.mem_cons.mp isIn with here | inRest
      · rw [here] at marked isNext
        apply grow.isMarked
        rw [if_pos (above.isMarked marked), isMarked_markAll]
        exact .inr ⟨above.length ▸ inside, isNext⟩
      · exact later k inRest marked j isNext inside
  obtain ⟨grow, spec⟩ := fold (List.range marks.length) marks (MarksGrow.refl marks)
  exact ⟨grow, fun i marked => spec i (List.mem_range.mpr (isMarked_lt marked)) marked⟩

/-- The passes leave every mark closed. -/
theorem markPasses_closed {left : Nat} {marks : List Bool} (enough : marks.count false < left) :
    MarksGrow marks (markPasses next left marks) ∧
      ∀ i, isMarked (markPasses next left marks) i = true → ClosedAt next (markPasses next left marks) i := by
  induction left generalizing marks with
  | zero => omega
  | succ left ih =>
    obtain ⟨grow, spec⟩ := @markPass_spec next marks
    simp only [markPasses]
    by_cases same : markPass next marks = marks
    · rw [if_pos same]
      rw [same] at spec
      exact ⟨MarksGrow.refl _, spec⟩
    · rw [if_neg same]
      have fewer := grow.count_false.resolve_left same
      obtain ⟨grow', closed⟩ := @ih (markPass next marks) (by omega)
      exact ⟨grow.trans grow', closed⟩

end Search

section Reached

variable {next : Nat → List Nat}

/-- What is reached below a bound from some numbers by going to what comes next. -/
inductive ReachedFrom (next : Nat → List Nat) (bound : Nat) (start : Nat → Prop) : Nat → Prop
  | start {i} : start i → i < bound → ReachedFrom next bound start i
  | next {i j} : ReachedFrom next bound start i → j ∈ next i → j < bound → ReachedFrom next bound start j

namespace ReachedFrom

variable {bound i : Nat} {start start' : Nat → Prop}

theorem lift (reached : ReachedFrom next bound start i)
    (covers : ∀ j, start j → j < bound → ReachedFrom next bound start' j) : ReachedFrom next bound start' i := by
  induction reached with
  | start isStart inside => exact covers _ isStart inside
  | next _ isNext inside ih => exact ih.next isNext inside

end ReachedFrom

/-- Nothing is marked or queued but what has a property. -/
structure Marking.Within (m : Marking) (P : Nat → Prop) : Prop where
  marks : ∀ i, isMarked m.marks i = true → P i
  queue : ∀ i ∈ m.queue, P i

theorem Marking.Within.mark {m : Marking} {P : Nat → Prop} (within : m.Within P) {i : Nat}
    (holds : i < m.marks.length → P i) : (m.mark i).Within P := by
  by_cases free : m.marks[i]? = some false
  · have inside : i < m.marks.length := (List.getElem?_eq_some_iff.mp free).1
    rw [Marking.mark, if_pos free]
    refine ⟨fun j marked => ?_, fun j queued => ?_⟩
    · by_cases here : i = j
      · exact here ▸ holds inside
      · rw [isMarked_set_ne here] at marked
        exact within.marks j marked
    · rcases List.mem_append.mp queued with before | new
      · exact within.queue j before
      · rw [List.mem_singleton.mp new]
        exact holds inside
  · rw [Marking.mark, if_neg free]
    exact within

theorem Marking.Within.foldl_mark {m : Marking} {P : Nat → Prop} (within : m.Within P) {is : List Nat}
    (holds : ∀ i ∈ is, i < m.marks.length → P i) : (is.foldl Marking.mark m).Within P := by
  induction is generalizing m with
  | nil => exact within
  | cons i is ih =>
    have length := (m.mark_extends i).1.grow.length
    refine ih (within.mark (holds i List.mem_cons_self)) fun j isIn inside => ?_
    exact holds j (List.mem_cons_of_mem _ isIn) (length ▸ inside)

theorem markFrom_within {left : Nat} {m : Marking} {P : Nat → Prop} (within : m.Within P)
    (step : ∀ i, P i → ∀ j ∈ next i, j < m.marks.length → P j) {i : Nat}
    (marked : isMarked (markFrom next left m) i = true) : P i := by
  induction left generalizing m with
  | zero => exact within.marks i marked
  | succ left ih =>
    cases queue : m.queue with
    | nil =>
      simp only [markFrom, queue] at marked
      exact within.marks i marked
    | cons k rest =>
      simp only [markFrom, queue] at marked
      have length := (Marking.foldl_mark_extends ⟨m.marks, rest⟩ (next k)).1.grow.length
      have isP : P k := within.queue k (queue ▸ List.mem_cons_self)
      have popped : Marking.Within ⟨m.marks, rest⟩ P :=
        ⟨within.marks, fun j queued => within.queue j (queue ▸ List.mem_cons_of_mem _ queued)⟩
      refine ih (popped.foldl_mark (step k isP)) (fun a isA b isNext inside => ?_) marked
      exact step a isA b isNext (length ▸ inside)

/-- The search marks what is reached from the numbers it starts with. -/
theorem isMarked_markFrom {bound : Nat} {is : List Nat} {i : Nat} :
    isMarked (markFrom next bound (is.foldl Marking.mark ⟨List.replicate bound false, []⟩)) i = true ↔
      ReachedFrom next bound (· ∈ is) i := by
  obtain ⟨extends_, marked⟩ := Marking.foldl_mark_extends ⟨List.replicate bound false, []⟩ is
  have work := extends_.work
  simp only [List.count_replicate_self, List.length_nil, Nat.add_zero] at work
  have none : ∀ i, isMarked (List.replicate bound false) i ≠ true := by
    intro i isMarked_i
    simp [isMarked, List.getElem?_replicate] at isMarked_i
  have length := extends_.grow.length
  simp only [List.length_replicate] at length
  obtain ⟨grow, closed⟩ := @markFrom_closed next bound _ (by omega)
    (fun i isMarked_i => .inl ((extends_.new i isMarked_i).resolve_left (none i)))
  constructor
  · have blank : Marking.Within ⟨List.replicate bound false, []⟩ (ReachedFrom next bound (· ∈ is)) :=
      ⟨fun j isMarked_j => absurd isMarked_j (none j), fun j queued => by cases queued⟩
    refine markFrom_within (blank.foldl_mark fun j isIn inside => .start isIn (by simpa using inside)) ?_
    intro j reached k isNext inside
    exact reached.next isNext (length ▸ inside)
  · intro reached
    induction reached with
    | start isIn inside => exact grow.isMarked (marked _ isIn (by simpa using inside))
    | next _ isNext inside ih => exact closed _ ih _ isNext (by rw [grow.length, length]; exact inside)

theorem markPass_within {marks : List Bool} {P : Nat → Prop} (within : ∀ i, isMarked marks i = true → P i)
    (step : ∀ i, P i → ∀ j ∈ next i, j < marks.length → P j) {i : Nat}
    (marked : isMarked (markPass next marks) i = true) : P i := by
  have fold : ∀ (is : List Nat) (m : List Bool), m.length = marks.length → (∀ i, isMarked m i = true → P i) →
      ∀ i, isMarked (is.foldl (fun m i => if isMarked m i then markAll m (next i) else m) m) i = true → P i := by
    intro is
    induction is with
    | nil => exact fun m _ all => all
    | cons k is ih =>
      intro m length all
      rw [List.foldl_cons]
      by_cases isMarked_k : isMarked m k = true
      · rw [if_pos isMarked_k]
        refine ih _ (by rw [(MarksGrow.markAll m (next k)).length, length]) fun j marked => ?_
        rcases isMarked_markAll.mp marked with before | ⟨inside, isNext⟩
        · exact all j before
        · exact step k (all k isMarked_k) j isNext (length ▸ inside)
      · rw [if_neg isMarked_k]
        exact ih m length all
  exact fold _ marks rfl within i marked

theorem markPasses_within {left : Nat} {marks : List Bool} {P : Nat → Prop}
    (within : ∀ i, isMarked marks i = true → P i) (step : ∀ i, P i → ∀ j ∈ next i, j < marks.length → P j) {i : Nat}
    (marked : isMarked (markPasses next left marks) i = true) : P i := by
  induction left generalizing marks with
  | zero => exact within i marked
  | succ left ih =>
    simp only [markPasses] at marked
    split at marked
    · exact within i marked
    · refine ih (fun j => markPass_within within step) (fun a isA b isNext inside => ?_) marked
      exact step a isA b isNext ((@markPass_spec next marks).1.length ▸ inside)

/-- The passes mark what is reached from the marks. -/
theorem isMarked_markPasses {left : Nat} {marks : List Bool} (enough : marks.count false < left) {i : Nat} :
    isMarked (markPasses next left marks) i = true ↔
      ReachedFrom next marks.length (fun j => isMarked marks j = true) i := by
  obtain ⟨grow, closed⟩ := @markPasses_closed next left marks enough
  constructor
  · refine markPasses_within (fun j marked => .start marked (isMarked_lt marked)) fun j reached k isNext inside => ?_
    exact reached.next isNext inside
  · intro reached
    induction reached with
    | start marked _ => exact grow.isMarked marked
    | next _ isNext inside ih => exact closed _ ih _ isNext (by rw [grow.length]; exact inside)

end Reached

end HopHop
