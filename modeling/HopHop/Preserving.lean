import HopHop.Outcome

namespace HopHop

/-! What the runs of a program keep, where all that they run into on the way is as it should be. -/

namespace Prog

variable {σ α β γ : Type}

theorem bind_eq_ok {m : Prog σ α} {f : α → Prog σ β} {s s'' : σ} {b : β} :
    (m >>= f) s = .ok b s'' ↔ ∃ a s', m s = .ok a s' ∧ f a s' = .ok b s'' := by
  change bind m f s = _ ↔ _
  unfold bind
  cases m s <;> simp

theorem bind_of_ok {m : Prog σ α} {f : α → Prog σ β} {s s' : σ} {a : α} (ran : m s = .ok a s') :
    (m >>= f) s = f a s' := by
  change bind m f s = _
  unfold bind
  rw [ran]

theorem attempt_of_ok {m : Prog σ α} {s s' : σ} {a : α} (ran : m s = .ok a s') : attempt m s = .ok (some a) s' := by
  unfold attempt
  rw [ran]

theorem attempt_of_fail {m : Prog σ α} {s s' : σ} (ran : m s = .fail s') : attempt m s = .ok none s' := by
  unfold attempt
  rw [ran]

theorem loop_of_more {body : α → Prog σ (α ⊕ β)} {room : Nat} {a a' : α} {s s' : σ}
    (ran : body a s = .ok (.inl a') s') : loop body (room + 1) a s = loop body room a' s' := by
  rw [loop]
  dsimp only
  rw [ran]

theorem loop_of_done {body : α → Prog σ (α ⊕ β)} {room : Nat} {a : α} {b : β} {s s' : σ}
    (ran : body a s = .ok (.inr b) s') : loop body (room + 1) a s = .ok b s' := by
  rw [loop]
  dsimp only
  rw [ran]

/-- What a loop ends with after one more round. -/
theorem loop_eq_ok {body : α → Prog σ (α ⊕ β)} {room : Nat} {a : α} {s s'' : σ} {b : β}
    (run : loop body (room + 1) a s = .ok b s'') :
    (∃ a' s', body a s = .ok (.inl a') s' ∧ loop body room a' s' = .ok b s'') ∨ body a s = .ok (.inr b) s'' := by
  rw [loop] at run
  dsimp only at run
  split at run
  · exact .inl ⟨_, _, ‹_›, run⟩
  · cases run
    exact .inr ‹_›
  · cases run
  · cases run

theorem attempt_eq_ok {m : Prog σ α} {s s' : σ} {r : Option α} (run : attempt m s = .ok r s') :
    (∃ a, r = some a ∧ m s = .ok a s') ∨ r = none ∧ m s = .fail s' := by
  unfold attempt at run
  cases ran : m s <;> rw [ran] at run <;> cases run
  · exact .inl ⟨_, rfl, rfl⟩
  · exact .inr ⟨rfl, rfl⟩

/-- The run of a program from a state comes to run `n` from the state `t`. -/
inductive Visits {σ γ : Type} (n : Prog σ γ) (t : σ) : {α : Type} → Prog σ α → σ → Prop
  | here : Visits n t n t
  | first {α β : Type} {m : Prog σ α} {f : α → Prog σ β} {s : σ} (visits : Visits n t m s) : Visits n t (m >>= f) s
  | next {α β : Type} {m : Prog σ α} {f : α → Prog σ β} {s s' : σ} {a : α} (ran : m s = .ok a s')
      (visits : Visits n t (f a) s') : Visits n t (m >>= f) s
  | attempt {α : Type} {m : Prog σ α} {s : σ} (visits : Visits n t m s) : Visits n t (attempt m) s
  | round {α β : Type} {body : α → Prog σ (α ⊕ β)} {room : Nat} {a : α} {s : σ} (visits : Visits n t (body a) s) :
      Visits n t (loop body (room + 1) a) s
  | later {α β : Type} {body : α → Prog σ (α ⊕ β)} {room : Nat} {a a' : α} {s s' : σ}
      (ran : body a s = .ok (.inl a') s') (visits : Visits n t (loop body room a') s') :
      Visits n t (loop body (room + 1) a) s

/-- A property of runs that the runs inside of them have too. -/
class Hereditary (V : {α : Type} → Prog σ α → σ → Prop) : Prop where
  first : ∀ {α β : Type} {m : Prog σ α} {f : α → Prog σ β} {s : σ}, V (m >>= f) s → V m s
  next : ∀ {α β : Type} {m : Prog σ α} {f : α → Prog σ β} {s s' : σ} {a : α}, V (m >>= f) s → m s = .ok a s' →
    V (f a) s'
  attempt : ∀ {α : Type} {m : Prog σ α} {s : σ}, V (attempt m) s → V m s
  round : ∀ {α β : Type} {body : α → Prog σ (α ⊕ β)} {room : Nat} {a : α} {s : σ},
    V (loop body (room + 1) a) s → V (body a) s
  later : ∀ {α β : Type} {body : α → Prog σ (α ⊕ β)} {room : Nat} {a a' : α} {s s' : σ},
    V (loop body (room + 1) a) s → body a s = .ok (.inl a') s' → V (loop body room a') s'

/-- From a state of `pre`, a run of the kind `V` that ends with a result ends as `post` says. -/
def Secures (V : {α : Type} → Prog σ α → σ → Prop) (pre : σ → Prop) (m : Prog σ α) (post : α → σ → Prop) : Prop :=
  ∀ s s' a, V m s → pre s → m s = .ok a s' → post a s'

/-- The runs of the kind `V` that end with a result keep what holds of the state. -/
class Preserving (V : {α : Type} → Prog σ α → σ → Prop) (I : σ → Prop) (m : Prog σ α) : Prop where
  keeps : Secures V I m fun _ => I

variable {V : {α : Type} → Prog σ α → σ → Prop} {I pre : σ → Prop} {m : Prog σ α} {f : α → Prog σ β}
  {post : α → σ → Prop} {last : β → σ → Prop}

theorem Secures.pure {a : α} (holds : ∀ s, pre s → post a s) : Secures V pre (Pure.pure a) post := by
  intro s s' b _ before run
  cases run
  exact holds s before

theorem Secures.modify {f : σ → σ} {post : Unit → σ → Prop} (holds : ∀ s, pre s → post () (f s)) :
    Secures V pre (modify f) post := by
  intro s s' b _ before run
  cases run
  exact holds s before

theorem Secures.failing {f : σ → σ} : Secures V pre (failing f) post := fun _ _ _ _ _ => nofun

theorem Secures.ite {c : Prop} [Decidable c] {n : Prog σ α} (yes : c → Secures V pre m post)
    (no : ¬c → Secures V pre n post) : Secures V pre (if c then m else n) post := by
  split
  · exact yes ‹_›
  · exact no ‹_›

theorem Secures.mono {pre' : σ → Prop} {post' : α → σ → Prop} (secured : Secures V pre m post)
    (before : ∀ s, pre' s → pre s) (behind : ∀ a s, post a s → post' a s) : Secures V pre' m post' :=
  fun s s' a fine holds run => behind a s' (secured s s' a fine (before s holds) run)

variable [Hereditary V]

theorem Secures.bind (first : Secures V pre m post) (next : ∀ a, Secures V (post a) (f a) last) :
    Secures V pre (m >>= f) last := by
  intro s s'' b fine holds run
  obtain ⟨a, s', ran, rest⟩ := bind_eq_ok.mp run
  exact next a s' s'' b (Hereditary.next fine ran) (first s s' a (Hereditary.first fine) holds ran) rest

/-- What is read of the state first may be used in the rest. -/
theorem Secures.get {f : σ → Prog σ β} (rest : ∀ s, pre s → Secures V (· = s) (f s) last) :
    Secures V pre (get >>= f) last :=
  fun s s' b fine holds run => rest s holds s s' b (Hereditary.next fine rfl) rfl run

theorem Secures.loop {body : α → Prog σ (α ⊕ β)} (inv : α → σ → Prop)
    (round : ∀ a, Secures V (inv a) (body a) (Sum.elim inv last)) (room : Nat) (a : α) :
    Secures V (inv a) (loop body room a) last := by
  induction room generalizing a with
  | zero => exact fun _ _ _ _ _ => nofun
  | succ room ih =>
    intro s s'' b fine holds run
    rcases loop_eq_ok run with ⟨a', s', ran, rest⟩ | ran
    · exact ih a' s' s'' b (Hereditary.later fine ran) (round a s s' _ (Hereditary.round fine) holds ran) rest
    · exact round a s s'' _ (Hereditary.round fine) holds ran

/-- An attempt that succeeds keeps what its program keeps. -/
theorem Secures.attempt [attempted : Preserving V I m] :
    Secures V I (attempt m) fun r s => r ≠ none → I s := by
  intro s s' r fine holds run succeeded
  rcases attempt_eq_ok run with ⟨a, -, ran⟩ | ⟨none, -⟩
  · exact attempted.keeps s s' a (Hereditary.attempt fine) holds ran
  · exact absurd none succeeded

theorem Preserving.modify {f : σ → σ} (keeps : ∀ s, I s → I (f s)) : Preserving V I (modify f) := ⟨.modify keeps⟩

instance (a : α) : Preserving V I (Pure.pure a) := ⟨.pure fun _ holds => holds⟩

instance : Preserving V I Prog.get := by
  constructor
  intro s s' b _ holds run
  cases run
  exact holds

instance (f : σ → σ) : Preserving (α := α) V I (Prog.failing f) := ⟨.failing⟩

instance {c : Prop} [Decidable c] {n : Prog σ α} [yes : Preserving V I m] [no : Preserving V I n] :
    Preserving V I (if c then m else n) :=
  ⟨.ite (fun _ => yes.keeps) fun _ => no.keeps⟩

instance [first : Preserving V I m] [next : ∀ a, Preserving V I (f a)] : Preserving V I (m >>= f) :=
  ⟨.bind first.keeps fun a => (next a).keeps⟩

instance {body : α → Prog σ (α ⊕ β)} [round : ∀ a, Preserving V I (body a)] (room : Nat) (a : α) :
    Preserving V I (Prog.loop body room a) := by
  constructor
  refine .loop (fun _ => I) (fun a => (round a).keeps.mono (fun _ holds => holds) ?_) room a
  rintro (_ | _) _ holds <;> exact holds

end Prog

end HopHop
