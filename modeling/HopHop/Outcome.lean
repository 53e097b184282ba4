import Mathlib.Data.List.Basic

namespace HopHop

/-! Programs over a mutable state that may refuse, and then leave the state as it was when they refused, or may run out
of the rounds they were given. The weakest precondition `wp` rules the last case out. -/

/-- How a run ends. -/
inductive Outcome (σ α : Type)
  | ok (a : α) (s : σ)
  | fail (s : σ)
  | outOfFuel

/-- A program over the state `σ`. -/
def Prog (σ α : Type) : Type := σ → Outcome σ α

namespace Prog

variable {σ α β γ : Type}

def pure (a : α) : Prog σ α := fun s => .ok a s

def bind (m : Prog σ α) (f : α → Prog σ β) : Prog σ β := fun s =>
  match m s with
  | .ok a s => f a s
  | .fail s => .fail s
  | .outOfFuel => .outOfFuel

instance : Monad (Prog σ) where
  pure := pure
  bind := bind

def get : Prog σ σ := fun s => .ok s s

def modify (f : σ → σ) : Prog σ Unit := fun s => .ok () (f s)

/-- Refuses, after a last change of the state. -/
def failing (f : σ → σ) : Prog σ α := fun s => .fail (f s)

/-- Runs a program and goes on when it refuses, in the state it refused in. -/
def attempt (m : Prog σ α) : Prog σ (Option α) := fun s =>
  match m s with
  | .ok a s => .ok (some a) s
  | .fail s => .ok none s
  | .outOfFuel => .outOfFuel

/-- Repeats a body until it gives a result, for at most so many rounds. -/
def loop (body : α → Prog σ (α ⊕ β)) : Nat → α → Prog σ β
  | 0, _ => fun _ => .outOfFuel
  | room + 1, a => fun s =>
    match body a s with
    | .ok (.inl a) s => loop body room a s
    | .ok (.inr b) s => .ok b s
    | .fail s => .fail s
    | .outOfFuel => .outOfFuel

/-- Every run from the state ends: with a result and a state of `post`, or refused in a state of `fails`. -/
def wp (m : Prog σ α) (s : σ) (post : α → σ → Prop) (fails : σ → Prop) : Prop :=
  match m s with
  | .ok a s => post a s
  | .fail s => fails s
  | .outOfFuel => False

theorem wp_pure {a : α} {s : σ} {post : α → σ → Prop} {fails : σ → Prop} :
    wp (Pure.pure a : Prog σ α) s post fails ↔ post a s := Iff.rfl

theorem wp_bind {m : Prog σ α} {f : α → Prog σ β} {s : σ} {post : β → σ → Prop} {fails : σ → Prop} :
    wp (m >>= f) s post fails ↔ wp m s (fun a s => wp (f a) s post fails) fails := by
  change wp (bind m f) s post fails ↔ _
  unfold wp bind
  cases m s <;> rfl

theorem wp_get {s : σ} {post : σ → σ → Prop} {fails : σ → Prop} : wp get s post fails ↔ post s s := Iff.rfl

theorem wp_modify {f : σ → σ} {s : σ} {post : Unit → σ → Prop} {fails : σ → Prop} :
    wp (modify f) s post fails ↔ post () (f s) := Iff.rfl

theorem wp_failing {f : σ → σ} {s : σ} {post : α → σ → Prop} {fails : σ → Prop} :
    wp (failing f) s post fails ↔ fails (f s) := Iff.rfl

theorem wp_attempt {m : Prog σ α} {s : σ} {post : Option α → σ → Prop} {fails : σ → Prop} :
    wp (attempt m) s post fails ↔ wp m s (fun a s => post (some a) s) (post none) := by
  unfold wp attempt
  cases m s <;> rfl

/-- The rule of consequence. -/
theorem wp_mono {m : Prog σ α} {s : σ} {post post' : α → σ → Prop} {fails fails' : σ → Prop}
    (run : wp m s post fails) (results : ∀ a s', post a s' → post' a s') (refusals : ∀ s', fails s' → fails' s') :
    wp m s post' fails' := by
  unfold wp at run ⊢
  cases result : m s with
  | ok a s' => exact results a s' (by simpa only [result] using run)
  | fail s' => exact refusals s' (by simpa only [result] using run)
  | outOfFuel => simp only [result] at run

/-- A step whose specification is known, and what follows it. -/
theorem wp_seq {m : Prog σ α} {f : α → Prog σ β} {s : σ} {mid : α → σ → Prop} {post : β → σ → Prop}
    {fails : σ → Prop} (first : wp m s mid fails) (next : ∀ a s', mid a s' → wp (f a) s' post fails) :
    wp (m >>= f) s post fails :=
  wp_bind.mpr (wp_mono first next fun _ fails => fails)

theorem wp_ok {m : Prog σ α} {s s' : σ} {a : α} {post : α → σ → Prop} {fails : σ → Prop} (spec : wp m s post fails)
    (run : m s = .ok a s') : post a s' := by
  simpa only [wp, run] using spec

theorem wp_exists {m : Prog σ α} {s : σ} {post : α → σ → Prop} {fails : σ → Prop} (spec : wp m s post fails) :
    (∃ a s', m s = .ok a s' ∧ post a s') ∨ ∃ s', m s = .fail s' ∧ fails s' := by
  unfold wp at spec
  cases result : m s with
  | ok a s' => exact .inl ⟨a, s', rfl, by simpa only [result] using spec⟩
  | fail s' => exact .inr ⟨s', rfl, by simpa only [result] using spec⟩
  | outOfFuel => simp only [result] at spec

/-- One round of a loop that has room for it. -/
theorem wp_loop_succ {body : α → Prog σ (α ⊕ β)} {room : Nat} {a : α} {s : σ} {post : β → σ → Prop} {fails : σ → Prop}
    (round : wp (body a) s
      (fun r s' => match r with
        | .inl a' => wp (loop body room a') s' post fails
        | .inr b => post b s') fails) : wp (loop body (room + 1) a) s post fails := by
  unfold wp at round ⊢
  rw [loop]
  cases result : body a s with
  | ok r s' =>
    simp only [result] at round ⊢
    cases r <;> exact round
  | fail s' => simpa only [result] using round
  | outOfFuel => simp only [result] at round

/-- A loop that keeps an invariant while a measure goes down in every round ends, and what its last round gives holds. -/
theorem wp_loop {body : α → Prog σ (α ⊕ β)} {I : α → σ → Prop} {d : α → σ → Nat} {post : β → σ → Prop}
    {fails : σ → Prop}
    (round : ∀ a s, I a s → wp (body a) s
      (fun r s' => match r with
        | .inl a' => I a' s' ∧ d a' s' < d a s
        | .inr b => post b s') fails) :
    ∀ {room : Nat} {a : α} {s : σ}, I a s → d a s < room → wp (loop body room a) s post fails := by
  intro room
  induction room with
  | zero => intro a s _ bound; omega
  | succ room ih =>
    intro a s start bound
    refine wp_loop_succ (wp_mono (round a s start) ?_ fun _ fails => fails)
    intro r s' step
    cases r with
    | inl a' => exact ih step.1 (by omega)
    | inr b => exact step

end Prog

end HopHop
