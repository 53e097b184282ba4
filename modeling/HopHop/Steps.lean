import Mathlib.Data.List.Basic

namespace Steps

/-! Machines that take one step at a time: a step either moves on or ends with a result. -/

/-- What one step comes to. -/
inductive Next (α ρ : Type)
  | run (next : α)
  | halt (result : ρ)

variable {α ρ : Type} (step : α → Next α ρ)

/-- The machine gets from the first state to the second by steps that move on. -/
inductive Reaches : α → α → Prop
  | refl (a : α) : Reaches a a
  | cons {a b c : α} (first : step a = .run b) (rest : Reaches b c) : Reaches a c

/-- The machine ends with this result when it is started in this state. -/
def Ends (a : α) (r : ρ) : Prop := ∃ b, Reaches step a b ∧ step b = .halt r

/-- The run with a bound on the number of steps, `none` when the bound is used up. -/
def runFor : Nat → α → Option ρ
  | 0, _ => none
  | fuel + 1, a =>
    match step a with
    | .run b => runFor fuel b
    | .halt r => some r

variable {step}

theorem Reaches.one {a b : α} (first : step a = .run b) : Reaches step a b := .cons first (.refl b)

theorem Reaches.trans {a b c : α} (left : Reaches step a b) (right : Reaches step b c) : Reaches step a c := by
  induction left with
  | refl => exact right
  | cons first _ ih => exact .cons first (ih right)

theorem Ends.of_reaches {a b : α} {r : ρ} (left : Reaches step a b) (ends : Ends step b r) : Ends step a r := by
  obtain ⟨c, right, last⟩ := ends
  exact ⟨c, left.trans right, last⟩

/-- Every state on the way to a halting one lies before it, and halts only there. -/
theorem Reaches.before {a b c : α} {r : ρ} (toEnd : Reaches step a b) (last : step b = .halt r)
    (other : Reaches step a c) : Reaches step c b := by
  induction other with
  | refl => exact toEnd
  | cons first _ ih =>
    cases toEnd with
    | refl => rw [last] at first; cases first
    | cons first' rest =>
      rw [first] at first'
      cases first'
      exact ih rest

/-- The result of a run is the only one. -/
theorem Ends.unique {a : α} {r r' : ρ} (left : Ends step a r) (right : Ends step a r') : r = r' := by
  obtain ⟨b, toB, lastB⟩ := left
  obtain ⟨c, toC, lastC⟩ := right
  cases toB.before lastB toC with
  | refl => rw [lastB] at lastC; cases lastC; rfl
  | cons first => rw [lastC] at first; cases first

/-- A state in which the machine halts on the way gives the result of the whole run. -/
theorem Ends.halt_of_reaches {a c : α} {r r' : ρ} (ends : Ends step a r) (reach : Reaches step a c)
    (last : step c = .halt r') : r' = r :=
  Ends.unique ⟨c, reach, last⟩ ends

theorem runFor_sound {fuel : Nat} {a : α} {r : ρ} (result : runFor step fuel a = some r) : Ends step a r := by
  induction fuel generalizing a with
  | zero => cases result
  | succ fuel ih =>
    cases first : step a with
    | run b =>
      simp only [runFor, first] at result
      exact (ih result).of_reaches (.one first)
    | halt r' =>
      simp only [runFor, first, Option.some.injEq] at result
      exact ⟨a, .refl a, first.trans (congrArg Next.halt result)⟩

/-- A property that every step keeps holds in every state the machine gets to. -/
theorem Reaches.invariant {P : α → Prop} (keeps : ∀ a b, P a → step a = .run b → P b) {a b : α} (start : P a)
    (reach : Reaches step a b) : P b := by
  induction reach with
  | refl => exact start
  | cons first _ ih => exact ih (keeps _ _ start first)

/-- Reaching a state within a number of steps. -/
inductive ReachesIn (step : α → Next α ρ) : Nat → α → α → Prop
  | refl (a : α) : ReachesIn step 0 a a
  | cons {n : Nat} {a b c : α} (first : step a = .run b) (rest : ReachesIn step n b c) : ReachesIn step (n + 1) a c

theorem ReachesIn.reaches {n : Nat} {a b : α} (reach : ReachesIn step n a b) : Reaches step a b := by
  induction reach with
  | refl => exact .refl _
  | cons first _ ih => exact .cons first ih

theorem ReachesIn.one {a b : α} (first : step a = .run b) : ReachesIn step 1 a b := .cons first (.refl b)

theorem ReachesIn.trans {n k : Nat} {a b c : α} (left : ReachesIn step n a b) (right : ReachesIn step k b c) :
    ReachesIn step (n + k) a c := by
  induction left with
  | refl => rw [Nat.zero_add]; exact right
  | cons first _ ih => rw [Nat.add_right_comm]; exact .cons first (ih right)

theorem Reaches.counted {a b : α} (reach : Reaches step a b) : ∃ n, ReachesIn step n a b := by
  induction reach with
  | refl => exact ⟨0, .refl _⟩
  | cons first _ ih =>
    obtain ⟨n, rest⟩ := ih
    exact ⟨n + 1, .cons first rest⟩

/-- Every state on the way to a halting one is left by fewer steps than the way takes. -/
theorem ReachesIn.before {n k : Nat} {a b c : α} {r : ρ} (toEnd : ReachesIn step n a b) (last : step b = .halt r)
    (other : ReachesIn step k a c) : k ≤ n ∧ ReachesIn step (n - k) c b := by
  induction other generalizing n with
  | refl => exact ⟨Nat.zero_le n, toEnd⟩
  | cons first _ ih =>
    cases toEnd with
    | refl => rw [last] at first; cases first
    | cons first' rest =>
      rw [first] at first'
      cases first'
      obtain ⟨fewer, later⟩ := ih rest
      exact ⟨Nat.succ_le_succ fewer, by rwa [Nat.succ_sub_succ]⟩

/-- With a bound beyond the steps taken the run gets to its result. -/
theorem ReachesIn.runFor_eq {n fuel : Nat} {a b : α} {r : ρ} (reach : ReachesIn step n a b) (last : step b = .halt r)
    (enough : n < fuel) : runFor step fuel a = some r := by
  induction reach generalizing fuel with
  | refl =>
    obtain ⟨fuel, rfl⟩ := Nat.exists_eq_succ_of_ne_zero (Nat.ne_of_gt enough)
    simp only [runFor, last]
  | cons first _ ih =>
    obtain ⟨fuel, rfl⟩ := Nat.exists_eq_succ_of_ne_zero (Nat.ne_of_gt (Nat.zero_lt_of_lt enough))
    simp only [runFor, first]
    exact ih last (by omega)

/-- A measure that every step lowers, among the states of an invariant, bounds the steps before the end. -/
theorem ReachesIn.of_measure {P : α → Prop} {measure : α → Nat}
    (lowers : ∀ a b, P a → step a = .run b → P b ∧ measure b < measure a) {a : α} (start : P a) :
    ∃ n b r, ReachesIn step n a b ∧ step b = .halt r ∧ P b ∧ n + measure b ≤ measure a := by
  induction left : measure a using Nat.strongRecOn generalizing a with
  | _ k ih =>
    cases first : step a with
    | halt r => exact ⟨0, a, r, .refl a, first, start, by omega⟩
    | run b =>
      obtain ⟨holds, lower⟩ := lowers a b start first
      obtain ⟨n, c, r, reach, last, atEnd, enough⟩ := ih (measure b) (by omega) holds rfl
      exact ⟨n + 1, c, r, .cons first reach, last, atEnd, by omega⟩

end Steps
