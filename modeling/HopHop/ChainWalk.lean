import Mathlib.Data.List.Basic
import Mathlib.Data.Set.Card
import Mathlib.Logic.Function.Basic
import Mathlib.Logic.Relation

namespace HopHop.ChainWalk

/-- How far the walk is with a node. -/
inductive Mark
  | fresh | visiting | visited
  deriving DecidableEq, Repr

/-- Why a walk gives up: a node leads back to one that is being visited, or it cannot be read. -/
inductive Failure (α ε : Type)
  | cycle (a : α)
  | stuck (e : ε)
  deriving DecidableEq, Repr

section

variable {α ε : Type} [DecidableEq α] (next : α → Except ε (Option α))

/-- The walk along the nodes that follow each other. -/
def walk : Nat → α → (α → Mark) → Except (Failure α ε) (α → Mark)
  | 0, _, marks => .ok marks
  | fuel + 1, a, marks =>
    if marks a ≠ .fresh then .ok marks
    else
      match next a with
      | .error e => .error (.stuck e)
      | .ok none => .ok (Function.update marks a .visited)
      | .ok (some b) =>
        if Function.update marks a .visiting b = .visiting then .error (.cycle a)
        else
          match walk fuel b (Function.update marks a .visiting) with
          | .error e => .error e
          | .ok marks => .ok (Function.update marks a .visited)

/-- The walks from several nodes, which share the marks. -/
def walkAll (fuel : Nat) : List α → (α → Mark) → Except (Failure α ε) (α → Mark)
  | [], marks => .ok marks
  | a :: rest, marks =>
    match walk next fuel a marks with
    | .error e => .error e
    | .ok marks => walkAll fuel rest marks

def Step (a b : α) : Prop := next a = .ok (some b)

/-- The chain from a node has an end. -/
inductive Ends : α → Prop
  | stop {a : α} : next a = .ok none → Ends a
  | step {a b : α} : next a = .ok (some b) → Ends b → Ends a

variable {next} {a b : α} {marks : α → Mark}

theorem Ends.reaches (ends : Ends next a) (reaches : Relation.ReflTransGen (Step next) a b) : Ends next b := by
  induction reaches with
  | refl => exact ends
  | tail _ step ih =>
    cases ih with
    | stop none =>
      rw [Step, none] at step
      cases step
    | step follows rest =>
      rw [Step, follows] at step
      cases step
      exact rest

/-- A chain that ends does not come back. -/
theorem Ends.not_cycle (ends : Ends next a) : ¬Relation.TransGen (Step next) a a := by
  induction ends with
  | @stop a none =>
    intro cycle
    obtain ⟨b, step, _⟩ := Relation.TransGen.head'_iff.mp cycle
    rw [Step, none] at step
    cases step
  | @step a b follows _ ih =>
    intro cycle
    obtain ⟨b', step, back⟩ := Relation.TransGen.head'_iff.mp cycle
    rw [Step, follows] at step
    cases step
    exact ih (Relation.TransGen.tail' back follows)

/-- What is known of the marks when a walk comes to a node: what was visited ends, and what is being visited leads to
the node. -/
structure Marked (next : α → Except ε (Option α)) (a : α) (marks : α → Mark) : Prop where
  visited : ∀ x, marks x = .visited → Ends next x
  visiting : ∀ x, marks x = .visiting → Relation.TransGen (Step next) x a

/-- The nodes that are still fresh, among all nodes there are. -/
def freshCount (nodes : List α) (marks : α → Mark) : Nat := nodes.countP fun x => marks x = .fresh

omit [DecidableEq α] in
theorem freshCount_lt {nodes : List α} {marks' : α → Mark} (member : a ∈ nodes) (fresh : marks a = .fresh)
    (marked : marks' a ≠ .fresh) (less : ∀ x, marks' x = .fresh → marks x = .fresh) :
    freshCount nodes marks' < freshCount nodes marks := by
  induction nodes with
  | nil => cases member
  | cons x nodes ih =>
    have mono : freshCount nodes marks' ≤ freshCount nodes marks := by
      refine List.countP_mono_left fun y _ isFresh => ?_
      rw [decide_eq_true_eq] at isFresh ⊢
      exact less y isFresh
    simp only [freshCount, List.countP_cons, decide_eq_true_eq] at ih mono ⊢
    rcases List.mem_cons.mp member with rfl | later
    · rw [if_neg marked, if_pos fresh]
      omega
    · have rest := ih later
      by_cases isFresh : marks' x = .fresh
      · rw [if_pos isFresh, if_pos (less x isFresh)]
        omega
      · rw [if_neg isFresh]
        omega

/-- A walk ends well only where the chain does, leaves what is being visited as it was, and has a reason to fail. -/
theorem walk_spec {nodes : List α} (closed : ∀ x y, Step next x y → y ∈ nodes) {fuel : Nat}
    (enough : freshCount nodes marks < fuel) (member : a ∈ nodes) (marked : Marked next a marks)
    (notVisiting : marks a ≠ .visiting) :
    match walk next fuel a marks with
    | .ok marks' => Ends next a ∧ (∀ x, marks' x = .visited → Ends next x) ∧
        ∀ x, marks' x = .visiting ↔ marks x = .visiting
    | .error (.cycle _) => ∃ y, Relation.ReflTransGen (Step next) a y ∧ Relation.TransGen (Step next) y y
    | .error (.stuck e) => ∃ y, Relation.ReflTransGen (Step next) a y ∧ next y = .error e := by
  induction fuel generalizing a marks with
  | zero => exact absurd enough (Nat.not_lt_zero _)
  | succ fuel ih =>
    rw [walk]
    by_cases fresh : marks a = .fresh
    · rw [if_neg (not_not.mpr fresh)]
      cases follows : next a with
      | error e => exact ⟨a, .refl, follows⟩
      | ok target =>
        cases target with
        | none =>
          refine ⟨.stop follows, fun x isVisited => ?_, fun x => ?_⟩
          · by_cases same : x = a
            · rw [same]
              exact .stop follows
            · rw [Function.update_of_ne same] at isVisited
              exact marked.visited x isVisited
          · by_cases same : x = a
            · rw [same, Function.update_self, fresh]
              exact ⟨nofun, nofun⟩
            · rw [Function.update_of_ne same]
        | some b =>
          dsimp only
          by_cases back : Function.update marks a .visiting b = .visiting
          · rw [if_pos back]
            refine ⟨a, .refl, ?_⟩
            by_cases same : b = a
            · rw [same] at follows
              exact .single follows
            · rw [Function.update_of_ne same] at back
              exact .head follows (marked.visiting b back)
          · rw [if_neg back]
            have marked' : Marked next b (Function.update marks a .visiting) := by
              refine ⟨fun x isVisited => ?_, fun x isVisiting => ?_⟩
              · by_cases same : x = a
                · rw [same, Function.update_self] at isVisited
                  cases isVisited
                · rw [Function.update_of_ne same] at isVisited
                  exact marked.visited x isVisited
              · by_cases same : x = a
                · rw [same]
                  exact .single follows
                · rw [Function.update_of_ne same] at isVisiting
                  exact (marked.visiting x isVisiting).tail follows
            have fewer : freshCount nodes (Function.update marks a .visiting) < freshCount nodes marks := by
              refine freshCount_lt member fresh ?_ fun x isFresh => ?_
              · rw [Function.update_self]
                exact nofun
              · by_cases same : x = a
                · rw [same]
                  exact fresh
                · rwa [Function.update_of_ne same] at isFresh
            have later := ih (Nat.lt_of_lt_of_le fewer (Nat.le_of_lt_succ enough)) (closed a b follows) marked' back
            revert later
            cases walk next fuel b (Function.update marks a .visiting) with
            | error e =>
              cases e with
              | cycle x =>
                rintro ⟨y, reaches, cycle⟩
                exact ⟨y, .head follows reaches, cycle⟩
              | stuck e =>
                rintro ⟨y, reaches, stuck⟩
                exact ⟨y, .head follows reaches, stuck⟩
            | ok marks' =>
              rintro ⟨ends, visited, visiting⟩
              refine ⟨.step follows ends, fun x isVisited => ?_, fun x => ?_⟩
              · by_cases same : x = a
                · rw [same]
                  exact .step follows ends
                · rw [Function.update_of_ne same] at isVisited
                  exact visited x isVisited
              · by_cases same : x = a
                · rw [same, Function.update_self, fresh]
                  exact ⟨nofun, nofun⟩
                · rw [Function.update_of_ne same, visiting, Function.update_of_ne same]
    · rw [if_pos fresh]
      have isVisited : marks a = .visited := by
        cases mark : marks a with
        | fresh => exact absurd mark fresh
        | visiting => exact absurd mark notVisiting
        | visited => rfl
      exact ⟨marked.visited a isVisited, marked.visited, fun _ => Iff.rfl⟩

theorem freshCount_le (nodes : List α) (marks : α → Mark) : freshCount nodes marks ≤ nodes.length :=
  List.countP_le_length

/-- All walks end well exactly when all chains end. -/
theorem walkAll_spec {nodes : List α} (closed : ∀ x y, Step next x y → y ∈ nodes) (starts : List α)
    (among : ∀ a ∈ starts, a ∈ nodes) (visited : ∀ x, marks x = .visited → Ends next x)
    (none : ∀ x, marks x ≠ .visiting) :
    match walkAll next (nodes.length + 1) starts marks with
    | .ok _ => ∀ a ∈ starts, Ends next a
    | .error (.cycle _) => (∃ a ∈ starts, ¬Ends next a) ∧ ∃ y, Relation.TransGen (Step next) y y
    | .error (.stuck _) => ∃ a ∈ starts, ¬Ends next a := by
  induction starts generalizing marks with
  | nil => exact fun _ member => (List.not_mem_nil member).elim
  | cons a starts ih =>
    have here := walk_spec closed (Nat.lt_succ_of_le (freshCount_le nodes marks)) (among a (List.mem_cons_self ..))
      ⟨visited, fun x isVisiting => absurd isVisiting (none x)⟩ (none a)
    rw [walkAll]
    revert here
    cases walk next (nodes.length + 1) a marks with
    | error e =>
      cases e with
      | cycle x =>
        rintro ⟨y, reaches, cycle⟩
        exact ⟨⟨a, List.mem_cons_self .., fun ends => (ends.reaches reaches).not_cycle cycle⟩, y, cycle⟩
      | stuck e =>
        rintro ⟨y, reaches, stuck⟩
        refine ⟨a, List.mem_cons_self .., fun ends => ?_⟩
        cases ends.reaches reaches with
        | stop none => cases stuck.symm.trans none
        | step follows _ => cases stuck.symm.trans follows
    | ok marks' =>
      rintro ⟨ends, visited', visiting⟩
      have later := ih (fun b member => among b (List.mem_cons_of_mem _ member)) visited'
        fun x isVisiting => none x ((visiting x).mp isVisiting)
      dsimp only
      revert later
      cases walkAll next (nodes.length + 1) starts marks' with
      | error e =>
        cases e with
        | cycle x =>
          rintro ⟨⟨b, member, not_⟩, cycle⟩
          exact ⟨⟨b, List.mem_cons_of_mem _ member, not_⟩, cycle⟩
        | stuck e =>
          rintro ⟨b, member, not_⟩
          exact ⟨b, List.mem_cons_of_mem _ member, not_⟩
      | ok marks'' =>
        intro rest
        exact List.forall_mem_cons.mpr ⟨ends, rest⟩

end

/-- A relation without cycles on finitely many numbers has a depth. -/
theorem exists_depth {holds : Nat → Nat → Prop} {bound : Nat} (inside : ∀ a b, holds a b → b < bound)
    (acyclic : ∀ a, ¬Relation.TransGen holds a a) : ∃ depth : Nat → Nat, ∀ a b, holds a b → depth b < depth a := by
  refine ⟨fun a => {b | Relation.TransGen holds a b}.ncard, fun a b isHeld => ?_⟩
  have finite : {b | Relation.TransGen holds a b}.Finite := by
    refine (Set.finite_lt_nat bound).subset fun c reaches => ?_
    obtain ⟨d, _, last⟩ := Relation.TransGen.tail'_iff.mp reaches
    exact inside d c last
  refine Set.ncard_lt_ncard ⟨fun c reaches => Relation.TransGen.head isHeld reaches, fun all => ?_⟩ finite
  exact acyclic b (all (Relation.TransGen.single isHeld))

end HopHop.ChainWalk
