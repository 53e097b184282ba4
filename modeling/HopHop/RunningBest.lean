import Mathlib.Data.List.Induction

namespace HopHop.RunningBest

/-- What a later element does to the best one so far: it takes its place, leaves it, or leaves it and marks it as
tied. -/
inductive Verdict
  | replace | keep | tie
  deriving DecidableEq, Repr

section

variable {α : Type} (compare : α → α → Verdict)

/-- One step of the search: the best element so far with the mark, and the next element. -/
def step : Option (α × Bool) → α → Option (α × Bool)
  | none, cur => some (cur, false)
  | some (best, tied), cur =>
    match compare cur best with
    | .replace => some (cur, false)
    | .keep => some (best, tied)
    | .tie => some (best, true)

def run (l : List α) : Option (α × Bool) := l.foldl (step compare) none

theorem run_append_one (l : List α) (cur : α) : run compare (l ++ [cur]) = step compare (run compare l) cur := by
  simp only [run, List.foldl_append, List.foldl_cons, List.foldl_nil]

theorem run_nil : run compare ([] : List α) = none := rfl

/-- A search over a nonempty list finds an element of it. -/
theorem run_append_one_isSome (l : List α) (cur : α) : (run compare (l ++ [cur])).isSome := by
  rw [run_append_one]
  cases run compare l with
  | none => rfl
  | some found => simp only [step]; split <;> rfl

theorem run_mem {l : List α} {best : α} {tied : Bool} (found : run compare l = some (best, tied)) : best ∈ l := by
  induction l using List.reverseRecOn generalizing best tied with
  | nil => simp [run_nil] at found
  | append_singleton l cur ih =>
    rw [run_append_one] at found
    cases before : run compare l with
    | none =>
      rw [before] at found
      simp only [step, Option.some.injEq, Prod.mk.injEq] at found
      simp [found.1]
    | some earlier =>
      have earlierMem : earlier.1 ∈ l := @ih earlier.1 earlier.2 (by rw [before])
      rw [before] at found
      simp only [step] at found
      split at found <;> simp only [Option.some.injEq, Prod.mk.injEq] at found
      · simp [found.1]
      · simp [← found.1, earlierMem]
      · simp [← found.1, earlierMem]

theorem run_isSome {l : List α} (nonempty : l ≠ []) : (run compare l).isSome := by
  obtain ⟨front, last, rfl⟩ := List.eq_nil_or_concat l |>.resolve_left nonempty
  rw [List.concat_eq_append]
  exact run_append_one_isSome compare front last

/-- An element that takes the place of whatever may be best before it is the result, without a mark. -/
theorem run_append_replaces {l : List α} {cur : α}
    (replaces : ∀ best ∈ l, ∀ tied, run compare l = some (best, tied) → compare cur best = .replace) :
    run compare (l ++ [cur]) = some (cur, false) := by
  rw [run_append_one]
  cases before : run compare l with
  | none => rfl
  | some earlier =>
    have wins := replaces earlier.1 (run_mem compare before) earlier.2 before
    simp only [step, wins]

end

/-- What a search finds, up to what an element is known by: nothing, one of them, or several that tie. -/
inductive Found (κ : Type)
  | nothing | chosen (key : κ) | tied
  deriving DecidableEq, Repr

def found {α κ : Type} (key : α → κ) : Option (α × Bool) → Found κ
  | none => .nothing
  | some (best, false) => .chosen (key best)
  | some (_, true) => .tied

/-- A class of elements that every search over the list ends in: its elements take the place of all others and stay
in front of them, and tie among themselves unless they are known by the same key. -/
structure Champions {α κ : Type} (compare : α → α → Verdict) (key : α → κ) (l : List α) (top : α → Prop) : Prop where
  nonempty : l ≠ [] → ∃ t ∈ l, top t
  ahead : ∀ t ∈ l, ∀ x ∈ l, top t → ¬ top x → compare t x = .replace ∧ compare x t = .keep
  level : ∀ t ∈ l, ∀ u ∈ l, top t → top u → compare t u ≠ .replace
  tie : ∀ t ∈ l, ∀ u ∈ l, top t → top u → (compare t u = .tie ↔ key t ≠ key u)

section

variable {α κ : Type} {compare : α → α → Verdict} {key : α → κ} {top : α → Prop}

/-- What is known of a search once an element of the class has been met: the best is the first of them, and it is
marked when one with another key has followed. -/
theorem Champions.run_front {l : List α} (champions : Champions compare key l top) :
    ∀ {front : List α}, (∀ x ∈ front, x ∈ l) → (∃ t ∈ front, top t) →
      ∃ best tied, run compare front = some (best, tied) ∧ best ∈ front ∧ top best ∧
        (tied = true ↔ ∃ t ∈ front, top t ∧ key t ≠ key best) := by
  intro front
  induction front using List.reverseRecOn with
  | nil => intro _ met; obtain ⟨t, mem, _⟩ := met; simp at mem
  | append_singleton front cur ih =>
    intro inside met
    have insideFront : ∀ x ∈ front, x ∈ l := fun x mem => inside x (List.mem_append_left _ mem)
    have curMem : cur ∈ l := inside cur (by simp)
    rw [run_append_one]
    by_cases metBefore : ∃ t ∈ front, top t
    · obtain ⟨best, tied, ran, bestMem, bestTop, marked⟩ := ih insideFront metBefore
      rw [ran]
      by_cases curTop : top cur
      · have noReplace := champions.level cur curMem best (insideFront best bestMem) curTop bestTop
        have tieIff := champions.tie cur curMem best (insideFront best bestMem) curTop bestTop
        cases verdict : compare cur best with
        | replace => exact absurd verdict noReplace
        | keep =>
          have sameKey : key cur = key best := by
            by_contra other
            rw [verdict] at tieIff
            simp [other] at tieIff
          refine ⟨best, tied, by simp only [step, verdict], by simp [bestMem], bestTop, ?_⟩
          rw [marked]
          constructor
          · rintro ⟨t, mem, isTop, other⟩
            exact ⟨t, by simp [mem], isTop, other⟩
          · rintro ⟨t, mem, isTop, other⟩
            rcases List.mem_append.mp mem with before | last
            · exact ⟨t, before, isTop, other⟩
            · rw [List.mem_singleton.mp last] at other
              exact absurd sameKey other
        | tie =>
          have otherKey : key cur ≠ key best := tieIff.mp verdict
          refine ⟨best, true, by simp only [step, verdict], by simp [bestMem], bestTop, ?_⟩
          simp only [true_iff]
          exact ⟨cur, by simp, curTop, otherKey⟩
      · have stays := (champions.ahead best (insideFront best bestMem) cur curMem bestTop curTop).2
        refine ⟨best, tied, by simp only [step, stays], by simp [bestMem], bestTop, ?_⟩
        rw [marked]
        constructor
        · rintro ⟨t, mem, isTop, other⟩
          exact ⟨t, by simp [mem], isTop, other⟩
        · rintro ⟨t, mem, isTop, other⟩
          rcases List.mem_append.mp mem with before | last
          · exact ⟨t, before, isTop, other⟩
          · rw [List.mem_singleton.mp last] at isTop
            exact absurd isTop curTop
    · have curTop : top cur := by
        obtain ⟨t, mem, isTop⟩ := met
        rcases List.mem_append.mp mem with before | last
        · exact absurd ⟨t, before, isTop⟩ metBefore
        · rwa [← List.mem_singleton.mp last]
      have ran : run compare (front ++ [cur]) = some (cur, false) := by
        apply run_append_replaces
        intro best bestMem tied _
        have bestLow : ¬ top best := fun isTop => metBefore ⟨best, bestMem, isTop⟩
        exact (champions.ahead cur curMem best (insideFront best bestMem) curTop bestLow).1
      rw [← run_append_one]
      refine ⟨cur, false, ran, by simp, curTop, ?_⟩
      simp only [Bool.false_eq_true, false_iff, not_exists, not_and]
      intro t mem isTop
      rcases List.mem_append.mp mem with before | last
      · exact absurd ⟨t, before, isTop⟩ metBefore
      · simp [List.mem_singleton.mp last]

/-- Elements outside a class that takes the place of all others do not matter to a search that meets the class. -/
theorem run_filter [DecidablePred top] {l : List α}
    (ahead : ∀ t ∈ l, ∀ x ∈ l, top t → ¬ top x → compare t x = .replace ∧ compare x t = .keep)
    (met : ∃ t ∈ l, top t) : run compare l = run compare (l.filter top) := by
  induction l using List.reverseRecOn with
  | nil => obtain ⟨t, mem, _⟩ := met; simp at mem
  | append_singleton front cur ih =>
    have aheadFront : ∀ t ∈ front, ∀ x ∈ front, top t → ¬ top x → compare t x = .replace ∧ compare x t = .keep :=
      fun t memT x memX => ahead t (List.mem_append_left _ memT) x (List.mem_append_left _ memX)
    rw [List.filter_append]
    by_cases curTop : top cur
    · rw [List.filter_cons_of_pos (by simpa using curTop), List.filter_nil, run_append_one]
      by_cases metBefore : ∃ t ∈ front, top t
      · rw [ih aheadFront metBefore, run_append_one]
      · have noTop : front.filter (fun x => decide (top x)) = [] := by
          rw [List.filter_eq_nil_iff]
          intro x mem
          simpa using fun isTop => metBefore ⟨x, mem, isTop⟩
        have replaces : run compare (front ++ [cur]) = some (cur, false) := by
          apply run_append_replaces
          intro best bestMem tied _
          have bestLow : ¬ top best := fun isTop => metBefore ⟨best, bestMem, isTop⟩
          exact (ahead cur (by simp) best (by simp [bestMem]) curTop bestLow).1
        rw [← run_append_one, replaces, noTop]
        rfl
    · have metBefore : ∃ t ∈ front, top t := by
        obtain ⟨t, mem, isTop⟩ := met
        rcases List.mem_append.mp mem with before | last
        · exact ⟨t, before, isTop⟩
        · exact absurd (List.mem_singleton.mp last ▸ isTop) curTop
      rw [List.filter_cons_of_neg (by simpa using curTop), List.filter_nil, List.append_nil, run_append_one,
        ih aheadFront metBefore]
      have nonempty : (front.filter fun x => decide (top x)) ≠ [] := by
        obtain ⟨t, mem, isTop⟩ := metBefore
        exact List.ne_nil_of_mem (List.mem_filter.mpr ⟨mem, by simpa using isTop⟩)
      obtain ⟨found, ran⟩ := Option.isSome_iff_exists.mp (run_isSome compare nonempty)
      have bestMem := List.mem_filter.mp (@run_mem α compare _ found.1 found.2 ran)
      have keeps := (ahead found.1 (by simp [bestMem.1]) cur (by simp) (by simpa using bestMem.2) curTop).2
      rw [ran]
      simp only [step, keeps]

/-- A search over the list of a champion class ends in the class, and is marked when its elements have several keys. -/
theorem Champions.run_eq {l : List α} (champions : Champions compare key l top) (nonempty : l ≠ []) :
    ∃ best tied, run compare l = some (best, tied) ∧ best ∈ l ∧ top best ∧
      (tied = true ↔ ∃ t ∈ l, top t ∧ key t ≠ key best) :=
  champions.run_front (fun _ mem => mem) (champions.nonempty nonempty)

/-- Two searches whose champions are known by the same keys find the same. -/
theorem Champions.found_eq {compare' : α → α → Verdict} {top' : α → Prop} {l l' : List α}
    (champions : Champions compare key l top) (champions' : Champions compare' key l' top')
    (forth : ∀ t ∈ l, top t → ∃ t' ∈ l', top' t' ∧ key t' = key t)
    (back : ∀ t' ∈ l', top' t' → ∃ t ∈ l, top t ∧ key t = key t') :
    found key (run compare l) = found key (run compare' l') := by
  by_cases empty : l = []
  · by_cases empty' : l' = []
    · rw [empty, empty']; rfl
    · obtain ⟨t', mem', isTop'⟩ := champions'.nonempty empty'
      obtain ⟨t, mem, _⟩ := back t' mem' isTop'
      rw [empty] at mem
      simp at mem
  · obtain ⟨best, tied, ran, mem, isTop, marked⟩ := champions.run_eq empty
    obtain ⟨best₀, mem₀, _⟩ := forth best mem isTop
    have nonempty' : l' ≠ [] := List.ne_nil_of_mem mem₀
    obtain ⟨best', tied', ran', mem', isTop', marked'⟩ := champions'.run_eq nonempty'
    rw [ran, ran']
    by_cases several : tied = true
    · obtain ⟨t, tMem, tTop, other⟩ := marked.mp several
      have several' : tied' = true := by
        obtain ⟨u, uMem, uTop, uKey⟩ := forth t tMem tTop
        obtain ⟨v, vMem, vTop, vKey⟩ := forth best mem isTop
        rw [marked']
        by_cases sameAsBest : key u = key best'
        · refine ⟨v, vMem, vTop, fun same => other ?_⟩
          rw [← uKey, sameAsBest, ← same, vKey]
        · exact ⟨u, uMem, uTop, sameAsBest⟩
      rw [several, several']
      rfl
    · have single : ∀ t ∈ l, top t → key t = key best := by
        intro t tMem tTop
        by_contra other
        exact several (marked.mpr ⟨t, tMem, tTop, other⟩)
      have sameKey : key best' = key best := by
        obtain ⟨t, tMem, tTop, tKey⟩ := back best' mem' isTop'
        rw [← tKey, single t tMem tTop]
      have single' : ¬ tied' = true := by
        rw [marked']
        rintro ⟨t', tMem', tTop', other⟩
        obtain ⟨t, tMem, tTop, tKey⟩ := back t' tMem' tTop'
        exact other (by rw [← tKey, single t tMem tTop, sameKey])
      simp only [Bool.not_eq_true] at several single'
      rw [several, single']
      simp only [found, sameKey]

/-- The order of the list does not matter to a search that has champions. -/
theorem Champions.found_perm {l l' : List α} (champions : Champions compare key l top) (perm : l.Perm l') :
    found key (run compare l) = found key (run compare l') := by
  have champions' : Champions compare key l' top :=
    { nonempty := fun nonempty => by
        obtain ⟨t, mem, isTop⟩ := champions.nonempty (fun empty => nonempty (by simpa [empty] using perm.symm))
        exact ⟨t, perm.mem_iff.mp mem, isTop⟩
      ahead := fun t tMem x xMem => champions.ahead t (perm.mem_iff.mpr tMem) x (perm.mem_iff.mpr xMem)
      level := fun t tMem u uMem => champions.level t (perm.mem_iff.mpr tMem) u (perm.mem_iff.mpr uMem)
      tie := fun t tMem u uMem => champions.tie t (perm.mem_iff.mpr tMem) u (perm.mem_iff.mpr uMem) }
  exact champions.found_eq champions' (fun t mem isTop => ⟨t, perm.mem_iff.mp mem, isTop, rfl⟩)
    (fun t mem isTop => ⟨t, perm.mem_iff.mpr mem, isTop, rfl⟩)

/-- Renaming the elements of a list renames what a search over it finds, where the renaming keeps the comparisons. -/
theorem run_map {β : Type} {compare' : β → β → Verdict} (rename : α → β) {l : List α}
    (same : ∀ x ∈ l, ∀ y ∈ l, compare' (rename x) (rename y) = compare x y) :
    run compare' (l.map rename) = (run compare l).map fun found => (rename found.1, found.2) := by
  induction l using List.reverseRecOn with
  | nil => rfl
  | append_singleton l cur ih =>
    have before := ih fun x xMem y yMem => same x (by simp [xMem]) y (by simp [yMem])
    rw [List.map_append, List.map_singleton, run_append_one, run_append_one, before]
    cases ran : run compare l with
    | none => rfl
    | some best =>
      have verdict := same cur (by simp) best.1 (by simp [run_mem compare ran])
      simp only [Option.map_some, step, verdict]
      split <;> rfl

end

end HopHop.RunningBest
