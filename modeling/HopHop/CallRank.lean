import HopHop.CallResolve
import Mathlib.Data.List.MinMax
import Mathlib.Data.Prod.Lex
import Mathlib.Order.Lex
import Mathlib.Data.List.Lex

namespace HopHop

theorem costVectorCompare_self (a : List UInt8) : costVectorCompare a a = .eq := by
  induction a with
  | nil => rfl
  | cons x a ih => simp only [costVectorCompare, UInt8.lt_irrefl, if_false, ih]

/-- The costs as numbers, which are compared from the first argument on. -/
def costValues (costs : List UInt8) : List Nat := costs.map UInt8.toNat

theorem costValues_injective : Function.Injective costValues :=
  List.map_injective_iff.mpr fun _ _ same => UInt8.toNat_inj.mp same

theorem costVectorCompare_of_lt {a b : List UInt8} (sameLength : a.length = b.length)
    (less : costValues a < costValues b) : costVectorCompare a b = .lt := by
  induction a generalizing b with
  | nil =>
    have empty : b = [] := List.length_eq_zero_iff.mp sameLength.symm
    subst empty
    exact absurd less (lt_irrefl _)
  | cons x a ih =>
    cases b with
    | nil => simp at sameLength
    | cons y b =>
      simp only [List.length_cons, Nat.add_right_cancel_iff] at sameLength
      rcases List.cons_lt_cons_iff.mp less with head | ⟨same, tail⟩
      · simp only [costVectorCompare, if_pos (UInt8.lt_iff_toNat_lt.mpr head)]
      · rw [UInt8.toNat_inj] at same
        subst same
        simp only [costVectorCompare, UInt8.lt_irrefl, if_false]
        exact ih sameLength tail

theorem costVectorCompare_of_gt {a b : List UInt8} (sameLength : a.length = b.length)
    (less : costValues b < costValues a) : costVectorCompare a b = .gt := by
  induction a generalizing b with
  | nil =>
    have empty : b = [] := List.length_eq_zero_iff.mp sameLength.symm
    subst empty
    exact absurd less (lt_irrefl _)
  | cons x a ih =>
    cases b with
    | nil => simp at sameLength
    | cons y b =>
      simp only [List.length_cons, Nat.add_right_cancel_iff] at sameLength
      rcases List.cons_lt_cons_iff.mp less with head | ⟨same, tail⟩
      · have below : y < x := UInt8.lt_iff_toNat_lt.mpr head
        have notLess : ¬ x < y := fun above => UInt8.lt_irrefl x (UInt8.lt_trans above below)
        simp only [costVectorCompare, if_neg notLess, if_pos below]
      · rw [UInt8.toNat_inj] at same
        subst same
        simp only [costVectorCompare, UInt8.lt_irrefl, if_false]
        exact ih sameLength tail

namespace Viable

section

variable {Fn : Type}

/-- How many of the two marks a candidate has that stand behind their absence in a tie. -/
def marks (v : Viable Fn) : Nat := v.variadic.toNat + v.templateInstance.toNat

/-- What candidates are ranked by, the least first: the costs from the first argument on, then the marks. -/
def key (v : Viable Fn) : List Nat ×ₗ Nat := toLex (costValues v.costs, v.marks)

/-- A candidate of the list that none is ranked before. -/
def IsTop (l : List (Viable Fn)) (v : Viable Fn) : Prop := ∀ w ∈ l, v.key ≤ w.key

theorem key_lt_iff (v w : Viable Fn) :
    v.key < w.key ↔ costValues v.costs < costValues w.costs ∨ v.costs = w.costs ∧ v.marks < w.marks := by
  rw [← costValues_injective.eq_iff]
  exact Prod.Lex.toLex_lt_toLex

theorem exists_isTop {l : List (Viable Fn)} (nonempty : l ≠ []) : ∃ v ∈ l, IsTop l v := by
  have some' : (l.argmin key).isSome := by
    rw [Option.isSome_iff_ne_none]
    exact fun none' => nonempty (List.argmin_eq_none.mp none')
  obtain ⟨v, least⟩ := Option.isSome_iff_exists.mp some'
  exact ⟨v, List.argmin_mem least, fun w mem => List.le_of_mem_argmin mem least⟩

theorem IsTop.key_eq {l : List (Viable Fn)} {t u : Viable Fn} (topT : IsTop l t) (topU : IsTop l u) (memT : t ∈ l)
    (memU : u ∈ l) : t.key = u.key :=
  le_antisymm (topT u memU) (topU t memT)

theorem costs_eq_of_key {t u : Viable Fn} (same : t.key = u.key) : t.costs = u.costs :=
  costValues_injective (congrArg Prod.fst (toLex.injective same))

theorem marks_eq_of_key {t u : Viable Fn} (same : t.key = u.key) : t.marks = u.marks :=
  congrArg Prod.snd (toLex.injective same)

/-- A candidate that another top one does not stand behind is ranked behind every top one. -/
theorem IsTop.lt_of_not {l : List (Viable Fn)} {t x : Viable Fn} (topT : IsTop l t) (memX : x ∈ l) (notTop : ¬ IsTop l x) :
    t.key < x.key := by
  rcases lt_or_eq_of_le (topT x memX) with less | same
  · exact less
  · exact absurd (fun w mem => same ▸ topT w mem) notTop

end

end Viable

open Viable RunningBest

section

variable {Fn : Type} [DecidableEq Fn]

/-- The comparison of two candidates with the same costs, by their marks alone. -/
theorem compareViable_of_costs_eq {cur best : Viable Fn} (same : cur.costs = best.costs) :
    compareViable cur best =
      if best.variadic ∧ cur.variadic = false ∨ best.templateInstance ∧ cur.templateInstance = false then .replace
      else if cur.fn ≠ best.fn then
        if best.templateInstance = false ∧ cur.templateInstance then .keep
        else if best.variadic = false ∧ cur.variadic then .keep
        else .tie
      else .keep := by
  simp [compareViable, same, costVectorCompare_self]

theorem compareViable_of_costs_lt {cur best : Viable Fn} (sameLength : cur.costs.length = best.costs.length)
    (less : costValues cur.costs < costValues best.costs) : compareViable cur best = .replace := by
  simp [compareViable, costVectorCompare_of_lt sameLength less]

theorem compareViable_of_costs_gt {cur best : Viable Fn} (sameLength : cur.costs.length = best.costs.length)
    (less : costValues best.costs < costValues cur.costs) : compareViable cur best = .keep := by
  simp [compareViable, costVectorCompare_of_gt sameLength less]

/-- A candidate that is ranked before another takes its place. -/
theorem compareViable_of_key_lt {cur best : Viable Fn} (sameLength : cur.costs.length = best.costs.length)
    (less : cur.key < best.key) : compareViable cur best = .replace := by
  rcases (key_lt_iff cur best).mp less with costs | ⟨same, marks⟩
  · exact compareViable_of_costs_lt sameLength costs
  · rw [compareViable_of_costs_eq same]
    obtain ⟨_, _, curVariadic, curInstance⟩ := cur
    obtain ⟨_, _, bestVariadic, bestInstance⟩ := best
    simp only [Viable.marks] at marks
    cases curVariadic <;> cases curInstance <;> cases bestVariadic <;> cases bestInstance <;> simp at marks ⊢

/-- A candidate that is ranked behind another leaves it in place. -/
theorem compareViable_of_key_gt {cur best : Viable Fn} (sameLength : cur.costs.length = best.costs.length)
    (less : best.key < cur.key) : compareViable cur best = .keep := by
  rcases (key_lt_iff best cur).mp less with costs | ⟨same, marks⟩
  · exact compareViable_of_costs_gt sameLength costs
  · rw [compareViable_of_costs_eq same.symm]
    obtain ⟨_, _, curVariadic, curInstance⟩ := cur
    obtain ⟨_, _, bestVariadic, bestInstance⟩ := best
    simp only [Viable.marks] at marks
    cases curVariadic <;> cases curInstance <;> cases bestVariadic <;> cases bestInstance <;> simp at marks ⊢

/-- Two candidates of one rank and one form tie, unless they are the same function. -/
theorem compareViable_of_same {cur best : Viable Fn} (sameKey : cur.key = best.key)
    (sameForm : cur.variadic = best.variadic) :
    compareViable cur best = if cur.fn ≠ best.fn then .tie else .keep := by
  have marks := marks_eq_of_key sameKey
  have sameInstance : cur.templateInstance = best.templateInstance := by
    simp only [Viable.marks, sameForm] at marks
    have bits : cur.templateInstance.toNat = best.templateInstance.toNat := by omega
    generalize cur.templateInstance = a at bits ⊢
    generalize best.templateInstance = b at bits ⊢
    cases a <;> cases b <;> simp at bits ⊢
  rw [compareViable_of_costs_eq (costs_eq_of_key sameKey), sameForm, sameInstance]
  cases best.variadic <;> cases best.templateInstance <;> simp

/-- Two candidates of one rank, one variadic and one an instance of a template, each take the place of the other. -/
theorem compareViable_of_crossed {cur best : Viable Fn} (sameKey : cur.key = best.key)
    (otherForm : cur.variadic ≠ best.variadic) : compareViable cur best = .replace := by
  have marks := marks_eq_of_key sameKey
  rw [compareViable_of_costs_eq (costs_eq_of_key sameKey)]
  obtain ⟨_, _, curVariadic, curInstance⟩ := cur
  obtain ⟨_, _, bestVariadic, bestInstance⟩ := best
  simp only [Viable.marks] at marks otherForm
  cases curVariadic <;> cases curInstance <;> cases bestVariadic <;> cases bestInstance <;> simp at marks otherForm ⊢

/-- The candidates of the first rank are of one form: none is variadic while another is not. -/
def TopsAgree (l : List (Viable Fn)) : Prop :=
  ∀ t ∈ l, ∀ u ∈ l, IsTop l t → IsTop l u → t.variadic = u.variadic

/-- Where the candidates of the first rank agree, every search ends among them. -/
theorem TopsAgree.champions {l : List (Viable Fn)} {n : Nat} (agree : TopsAgree l)
    (lengths : ∀ v ∈ l, v.costs.length = n) : Champions compareViable Viable.fn l (IsTop l) where
  nonempty := exists_isTop
  ahead := by
    intro t memT x memX topT notTop
    have less := topT.lt_of_not memX notTop
    have sameLength : t.costs.length = x.costs.length := by rw [lengths t memT, lengths x memX]
    exact ⟨compareViable_of_key_lt sameLength less, compareViable_of_key_gt sameLength.symm less⟩
  level := by
    intro t memT u memU topT topU
    rw [compareViable_of_same (topT.key_eq topU memT memU) (agree t memT u memU topT topU)]
    split <;> simp
  tie := by
    intro t memT u memU topT topU
    rw [compareViable_of_same (topT.key_eq topU memT memU) (agree t memT u memU topT topU)]
    by_cases same : t.fn = u.fn <;> simp [same]

/-- After a candidate of the first rank, the best one is of that rank and of its form. -/
theorem best_after_top {front : List (Viable Fn)} {l : List (Viable Fn)} {t : Viable Fn} {n : Nat}
    (lengths : ∀ v ∈ l, v.costs.length = n) (inside : ∀ v ∈ front ++ [t], v ∈ l) (top : IsTop l t) {best : Viable Fn}
    {tied : Bool} (ran : run compareViable (front ++ [t]) = some (best, tied)) :
    best.key = t.key ∧ best.variadic = t.variadic := by
  have memT : t ∈ l := inside t (by simp)
  rw [run_append_one] at ran
  cases before : run compareViable front with
  | none =>
    rw [before] at ran
    simp only [step, Option.some.injEq, Prod.mk.injEq] at ran
    simp [← ran.1]
  | some earlier =>
    obtain ⟨earlier, wasTied⟩ := earlier
    have memE : earlier ∈ l := inside earlier (List.mem_append_left _ (run_mem compareViable before))
    have sameLength : t.costs.length = earlier.costs.length := by rw [lengths t memT, lengths earlier memE]
    rw [before] at ran
    simp only [step] at ran
    rcases lt_or_eq_of_le (top earlier memE) with less | sameKey
    · rw [compareViable_of_key_lt sameLength less] at ran
      simp only [Option.some.injEq, Prod.mk.injEq] at ran
      simp [← ran.1]
    · by_cases form : t.variadic = earlier.variadic
      · have stays : best = earlier := by
          rw [compareViable_of_same sameKey form] at ran
          by_cases sameFn : t.fn = earlier.fn
          · simp only [sameFn, ne_eq, not_true_eq_false, if_false, Option.some.injEq, Prod.mk.injEq] at ran
            exact ran.1.symm
          · simp only [sameFn, ne_eq, not_false_eq_true, if_true, Option.some.injEq, Prod.mk.injEq] at ran
            exact ran.1.symm
        rw [stays]
        exact ⟨sameKey.symm, form.symm⟩
      · rw [compareViable_of_crossed sameKey form] at ran
        simp only [Option.some.injEq, Prod.mk.injEq] at ran
        simp [← ran.1]

/-- Two candidates of the first rank and of different forms: the one that comes last is chosen. -/
theorem run_crossed {front : List (Viable Fn)} {l : List (Viable Fn)} {t u : Viable Fn} {n : Nat}
    (lengths : ∀ v ∈ l, v.costs.length = n) (inside : ∀ v ∈ front ++ [t, u], v ∈ l) (topT : IsTop l t)
    (topU : IsTop l u) (otherForm : t.variadic ≠ u.variadic) :
    run compareViable (front ++ [t, u]) = some (u, false) := by
  have memT : t ∈ l := inside t (by simp)
  have memU : u ∈ l := inside u (by simp)
  have split : front ++ [t, u] = (front ++ [t]) ++ [u] := by simp
  rw [split]
  apply run_append_replaces
  intro best _ tied ran
  have insideFront : ∀ v ∈ front ++ [t], v ∈ l := by
    intro v mem
    apply inside v
    rw [split]
    exact List.mem_append_left _ mem
  obtain ⟨sameKey, sameForm⟩ := best_after_top lengths insideFront topT ran
  apply compareViable_of_crossed
  · rw [sameKey, topT.key_eq topU memT memU]
  · rw [sameForm]
    exact fun same => otherForm same.symm

end

end HopHop
