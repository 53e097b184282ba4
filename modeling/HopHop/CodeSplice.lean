import HopHop.Steps
import Mathlib.Algebra.Ring.Nat

/-! Code into which pieces without jumps are inserted, with the targets of its jumps moved along. -/

namespace CodeSplice

/-- What an instruction comes to in a state. -/
inductive Effect (σ ρ : Type)
  | next (s : σ)
  | jump (target : Nat) (s : σ)
  | halt (result : ρ)

/-- The effect with another target where it jumps. -/
def Effect.to {σ ρ : Type} (target : Nat) : Effect σ ρ → Effect σ ρ
  | .jump _ s => .jump target s
  | effect => effect

/-- How the instructions of a language name the targets of their jumps, and which targets fit into an operand. -/
structure JumpForm (ι : Type) where
  fits : Nat → Prop
  target : ι → Option Nat
  setTarget : Nat → ι → ι
  target_setTarget : ∀ {i : ι} {t t' : Nat}, fits t' → target i = some t → target (setTarget t' i) = some t'

/-- A meaning of the instructions. An instruction is told whether it stands at its target or behind it, so that jumps
backward can be counted. -/
structure Meaning {ι : Type} (form : JumpForm ι) (σ ρ : Type) where
  exec : Bool → ι → σ → Effect σ ρ
  fallOff : σ → ρ
  jumps : ∀ {back : Bool} {i : ι} {s s' : σ} {t : Nat}, exec back i s = .jump t s' → form.target i = some t
  setTarget : ∀ (back : Bool) {i : ι} (s : σ) {t t' : Nat}, form.fits t' → form.target i = some t →
    exec back (form.setTarget t' i) s = (exec back i s).to t'

/-- An instruction with the pieces that are inserted before and after it. -/
structure Cell (ι : Type) where
  before : List ι
  inst : ι
  after : List ι

section

variable {ι : Type} (form : JumpForm ι)

def Cell.size (cell : Cell ι) : Nat := cell.before.length + 1 + cell.after.length

/-- Where the code of a cell starts. -/
def place (cells : List (Cell ι)) (k : Nat) : Nat := ((cells.take k).map Cell.size).sum

/-- The instruction with its target moved to where the code of that cell starts. A target outside stays. -/
def relocate (cells : List (Cell ι)) (i : ι) : ι :=
  match form.target i with
  | none => i
  | some t => if t < cells.length then form.setTarget (place cells t) i else i

def Cell.code (move : ι → ι) (cell : Cell ι) : List ι := cell.before ++ move cell.inst :: cell.after

def splice (cells : List (Cell ι)) : List ι := cells.flatMap (Cell.code (relocate form cells))

/-- The pieces do not jump, the jumps of the cells stay inside, and every place fits into an operand. -/
structure Proper (cells : List (Cell ι)) : Prop where
  before : ∀ cell ∈ cells, ∀ i ∈ cell.before, form.target i = none
  after : ∀ cell ∈ cells, ∀ i ∈ cell.after, form.target i = none
  inside : ∀ cell ∈ cells, ∀ t, form.target cell.inst = some t → t < cells.length
  fits : ∀ k < cells.length, form.fits (place cells k)

end

section

variable {ι σ ρ : Type} {form : JumpForm ι} (meaning : Meaning form σ ρ)

/-- Whether the instruction stands at its target or behind it. -/
def isBack (form : JumpForm ι) (i : ι) (pc : Nat) : Bool := (form.target i).any (· ≤ pc)

/-- One instruction of the code at a place, with the state it is in. -/
def step (code : List ι) (c : Nat × σ) : Steps.Next (Nat × σ) ρ :=
  match code[c.1]? with
  | none => .halt (meaning.fallOff c.2)
  | some i =>
    match meaning.exec (isBack form i c.1) i c.2 with
    | .next s => .run (c.1 + 1, s)
    | .jump t s => .run (t, s)
    | .halt r => .halt r

/-- The instructions of a piece one after the other, up to one that halts. -/
def runPiece : List ι → σ → Except ρ σ
  | [], s => .ok s
  | i :: rest, s =>
    match meaning.exec false i s with
    | .next s => runPiece rest s
    | .jump _ s => runPiece rest s
    | .halt r => .error r

/-- One instruction together with its pieces: the piece before it, the instruction, and the piece after it unless it
jumps. -/
def fusedStep (cells : List (Cell ι)) (c : Nat × σ) : Steps.Next (Nat × σ) ρ :=
  match cells[c.1]? with
  | none => .halt (meaning.fallOff c.2)
  | some cell =>
    match runPiece meaning cell.before c.2 with
    | .error r => .halt r
    | .ok s =>
      match meaning.exec (isBack form cell.inst c.1) cell.inst s with
      | .halt r => .halt r
      | .jump t s => .run (t, s)
      | .next s =>
        match runPiece meaning cell.after s with
        | .error r => .halt r
        | .ok s => .run (c.1 + 1, s)

end

section

variable {ι : Type} {form : JumpForm ι} {cells : List (Cell ι)}

theorem Cell.length_code (move : ι → ι) (cell : Cell ι) : (cell.code move).length = cell.size := by
  simp only [Cell.code, Cell.size, List.length_append, List.length_cons]
  omega

theorem length_flatMap_code (move : ι → ι) (cells : List (Cell ι)) :
    (cells.flatMap (Cell.code move)).length = (cells.map Cell.size).sum := by
  induction cells with
  | nil => rfl
  | cons cell rest ih =>
    simp only [List.flatMap_cons, List.length_append, Cell.length_code, ih, List.map_cons, List.sum_cons]

theorem length_splice : (splice form cells).length = place cells cells.length := by
  rw [splice, length_flatMap_code, place, List.take_length]

theorem place_zero : place cells 0 = 0 := rfl

theorem place_succ {k : Nat} {cell : Cell ι} (here : cells[k]? = some cell) :
    place cells (k + 1) = place cells k + cell.size := by
  obtain ⟨bound, rfl⟩ := List.getElem?_eq_some_iff.mp here
  rw [place, place, List.take_succ_eq_append_getElem bound, List.map_append, List.sum_append]
  rfl

variable (cells) in
theorem place_mono {j k : Nat} (order : j ≤ k) : place cells j ≤ place cells k := by
  rw [place, place, ← List.take_append_drop j (cells.take k), List.take_take, Nat.min_eq_left order, List.map_append,
    List.sum_append]
  exact Nat.le_add_right _ _

variable (form) in
/-- The code of a cell stands at its place. -/
theorem splice_split {k : Nat} {cell : Cell ι} (here : cells[k]? = some cell) :
    ∃ pre post, splice form cells = pre ++ (cell.code (relocate form cells) ++ post) ∧ pre.length = place cells k := by
  obtain ⟨bound, rfl⟩ := List.getElem?_eq_some_iff.mp here
  refine ⟨(cells.take k).flatMap (Cell.code (relocate form cells)),
    (cells.drop (k + 1)).flatMap (Cell.code (relocate form cells)), ?_, length_flatMap_code _ _⟩
  have parts : cells = cells.take k ++ cells[k] :: cells.drop (k + 1) := by
    rw [← List.drop_eq_getElem_cons bound, List.take_append_drop]
  have split := congrArg (List.flatMap (Cell.code (relocate form cells))) parts
  rw [List.flatMap_append, List.flatMap_cons] at split
  exact split

/-- A relocated instruction stands at its target or behind it exactly when it did before. -/
theorem isBack_relocate (proper : Proper form cells) {k : Nat} {cell : Cell ι} (here : cells[k]? = some cell) :
    isBack form (relocate form cells cell.inst) (place cells k + cell.before.length) = isBack form cell.inst k := by
  cases target : form.target cell.inst with
  | none => simp only [relocate, isBack, target, Option.any_none]
  | some t =>
    have inside := proper.inside cell (List.mem_of_getElem? here) t target
    have moved : relocate form cells cell.inst = form.setTarget (place cells t) cell.inst := by
      simp only [relocate, target, inside, if_true]
    rw [moved, isBack, isBack, form.target_setTarget (proper.fits t inside) target, target, Option.any_some,
      Option.any_some, decide_eq_decide]
    constructor
    · intro back
      by_contra ahead
      have later := place_mono cells (show k + 1 ≤ t by omega)
      rw [place_succ here, Cell.size] at later
      omega
    · intro back
      have earlier := place_mono cells back
      omega

end

section

variable {ι σ ρ : Type} {form : JumpForm ι} {meaning : Meaning form σ ρ} {code pre post piece : List ι}

variable (meaning) in
theorem exec_straight {i : ι} (straight : form.target i = none) (back : Bool) (s : σ) :
    (∃ s', meaning.exec back i s = .next s') ∨ ∃ r, meaning.exec back i s = .halt r := by
  cases run : meaning.exec back i s with
  | next s' => exact .inl ⟨s', rfl⟩
  | jump t s' => cases straight.symm.trans (meaning.jumps run)
  | halt r => exact .inr ⟨r, rfl⟩

theorem getElem?_at {i : ι} {rest : List ι} {p : Nat} (whole : code = pre ++ i :: rest) (length : pre.length = p) :
    code[p]? = some i := by
  rw [whole, ← length, List.getElem?_append_right (Nat.le_refl _), Nat.sub_self]
  rfl

theorem isBack_straight {i : ι} (straight : form.target i = none) (pc : Nat) : isBack form i pc = false := by
  rw [isBack, straight, Option.any_none]

/-- A piece that comes to its end leads behind it. -/
theorem runPiece_ok (straight : ∀ i ∈ piece, form.target i = none) {p : Nat} (whole : code = pre ++ (piece ++ post))
    (length : pre.length = p) {s s' : σ} (run : runPiece meaning piece s = .ok s') :
    Steps.ReachesIn (step meaning code) piece.length (p, s) (p + piece.length, s') := by
  induction piece generalizing pre p s with
  | nil =>
    cases run
    exact .refl _
  | cons i rest ih =>
    have none := straight i (List.mem_cons_self ..)
    have atPlace : code[p]? = some i := getElem?_at whole length
    rcases exec_straight meaning none false s with ⟨mid, next⟩ | ⟨r, halts⟩
    · have first : step meaning code (p, s) = .run (p + 1, mid) := by
        simp only [step, atPlace, isBack_straight none, next]
      simp only [runPiece, next] at run
      have whole' : code = (pre ++ [i]) ++ (rest ++ post) := by rw [whole, List.append_assoc]; rfl
      have length' : (pre ++ [i]).length = p + 1 := by rw [List.length_append, List.length_singleton, length]
      have later := ih (fun j mem => straight j (List.mem_cons_of_mem _ mem)) whole' length' run
      rw [List.length_cons, Nat.add_comm rest.length 1, ← Nat.add_assoc, Nat.add_comm 1 rest.length]
      exact .cons first later
    · simp only [runPiece, halts] at run
      cases run

theorem runPiece_error (straight : ∀ i ∈ piece, form.target i = none) {p : Nat} (whole : code = pre ++ (piece ++ post))
    (length : pre.length = p) {s : σ} {r : ρ} (run : runPiece meaning piece s = .error r) :
    Steps.Ends (step meaning code) (p, s) r := by
  induction piece generalizing pre p s with
  | nil => cases run
  | cons i rest ih =>
    have none := straight i (List.mem_cons_self ..)
    have atPlace : code[p]? = some i := getElem?_at whole length
    rcases exec_straight meaning none false s with ⟨mid, next⟩ | ⟨r', halts⟩
    · have first : step meaning code (p, s) = .run (p + 1, mid) := by
        simp only [step, atPlace, isBack_straight none, next]
      simp only [runPiece, next] at run
      have whole' : code = (pre ++ [i]) ++ (rest ++ post) := by rw [whole, List.append_assoc]; rfl
      have length' : (pre ++ [i]).length = p + 1 := by rw [List.length_append, List.length_singleton, length]
      have later := ih (fun j mem => straight j (List.mem_cons_of_mem _ mem)) whole' length' run
      exact later.of_reaches (.one first)
    · simp only [runPiece, halts] at run
      cases run
      refine ⟨(p, s), .refl _, ?_⟩
      simp only [step, atPlace, isBack_straight none, halts]

end

section

variable {ι σ ρ : Type} {form : JumpForm ι} {meaning : Meaning form σ ρ} {cells : List (Cell ι)}

variable (meaning) in
/-- What the relocated instruction does: what it did, with the target moved. -/
theorem exec_relocate (proper : Proper form cells) {k : Nat} {cell : Cell ι} (here : cells[k]? = some cell)
    (back : Bool) (s : σ) :
    (∀ s', meaning.exec back cell.inst s = .next s' →
      meaning.exec back (relocate form cells cell.inst) s = .next s') ∧
    (∀ t s', meaning.exec back cell.inst s = .jump t s' → t < cells.length ∧
      meaning.exec back (relocate form cells cell.inst) s = .jump (place cells t) s') ∧
    ∀ r, meaning.exec back cell.inst s = .halt r →
      meaning.exec back (relocate form cells cell.inst) s = .halt r := by
  cases target : form.target cell.inst with
  | none =>
    have same : relocate form cells cell.inst = cell.inst := by simp only [relocate, target]
    rw [same]
    refine ⟨fun _ run => run, fun t s' run => ?_, fun _ run => run⟩
    cases target.symm.trans (meaning.jumps run)
  | some t =>
    have inside := proper.inside cell (List.mem_of_getElem? here) t target
    have moved : relocate form cells cell.inst = form.setTarget (place cells t) cell.inst := by
      simp only [relocate, target, inside, if_true]
    rw [moved, meaning.setTarget back s (proper.fits t inside) target]
    refine ⟨fun s' run => by simp only [run, Effect.to], fun t' s' run => ?_,
      fun r run => by simp only [run, Effect.to]⟩
    cases Option.some.inj (target.symm.trans (meaning.jumps run))
    exact ⟨inside, by simp only [run, Effect.to]⟩

/-- The spliced code, from the place of a cell, ends or comes to the place of another cell in one or more steps, as
the cells do. -/
def Follows (meaning : Meaning form σ ρ) (cells : List (Cell ι)) (k : Nat) (s : σ) : Steps.Next (Nat × σ) ρ → Prop
  | .halt r => Steps.Ends (step meaning (splice form cells)) (place cells k, s) r
  | .run (k', s') => k' ≤ cells.length ∧
    ∃ n, 0 < n ∧ Steps.ReachesIn (step meaning (splice form cells)) n (place cells k, s) (place cells k', s')

variable (meaning) in
/-- One instruction with its pieces is followed by the spliced code. -/
theorem fusedStep_followed (proper : Proper form cells) {k : Nat} (within : k ≤ cells.length) (s : σ) :
    Follows meaning cells k s (fusedStep meaning cells (k, s)) := by
  cases here : cells[k]? with
  | none =>
    have stop : k = cells.length := Nat.le_antisymm within (List.getElem?_eq_none_iff.mp here)
    have outside : (splice form cells)[place cells k]? = none := by
      have length : (splice form cells).length = place cells k := by rw [length_splice, stop]
      exact List.getElem?_eq_none_iff.mpr (Nat.le_of_eq length)
    simp only [fusedStep, here, Follows]
    refine ⟨_, .refl _, ?_⟩
    simp only [step, outside]
  | some cell =>
    have member := List.mem_of_getElem? here
    obtain ⟨pre, post, whole, length⟩ := splice_split form here
    rw [Cell.code, List.append_assoc, List.cons_append] at whole
    have around : splice form cells =
        (pre ++ cell.before) ++ relocate form cells cell.inst :: (cell.after ++ post) := by
      rw [whole, List.append_assoc]
    have atInst : (splice form cells)[place cells k + cell.before.length]? = some (relocate form cells cell.inst) :=
      getElem?_at around (by rw [List.length_append, length])
    cases first : runPiece meaning cell.before s with
    | error r =>
      simp only [fusedStep, here, first, Follows]
      exact runPiece_error (proper.before cell member) whole length first
    | ok mid =>
      have toInst := runPiece_ok (proper.before cell member) whole length first
      obtain ⟨onNext, onJump, onHalt⟩ :=
        exec_relocate meaning proper here (isBack form cell.inst k) mid
      cases effect : meaning.exec (isBack form cell.inst k) cell.inst mid with
      | halt r =>
        simp only [fusedStep, here, first, effect, Follows]
        refine ⟨_, toInst.reaches, ?_⟩
        simp only [step, atInst, isBack_relocate proper here, onHalt r effect]
      | jump t after =>
        obtain ⟨inside, moved⟩ := onJump t after effect
        have last : step meaning (splice form cells) (place cells k + cell.before.length, mid) =
            .run (place cells t, after) := by
          simp only [step, atInst, isBack_relocate proper here, moved]
        simp only [fusedStep, here, first, effect, Follows]
        exact ⟨Nat.le_of_lt inside, _, Nat.succ_pos _, toInst.trans (.one last)⟩
      | next after =>
        have one : step meaning (splice form cells) (place cells k + cell.before.length, mid) =
            .run (place cells k + cell.before.length + 1, after) := by
          simp only [step, atInst, isBack_relocate proper here, onNext after effect]
        have toAfter := toInst.trans (.one one)
        have whole' : splice form cells =
            (pre ++ cell.before ++ [relocate form cells cell.inst]) ++ (cell.after ++ post) := by
          rw [whole, List.append_assoc, List.append_assoc, List.singleton_append]
        have length' : (pre ++ cell.before ++ [relocate form cells cell.inst]).length =
            place cells k + cell.before.length + 1 := by
          rw [List.length_append, List.length_append, length, List.length_singleton]
        cases second : runPiece meaning cell.after after with
        | error r =>
          simp only [fusedStep, here, first, effect, second, Follows]
          exact (runPiece_error (proper.after cell member) whole' length' second).of_reaches toAfter.reaches
        | ok final =>
          have rest := runPiece_ok (proper.after cell member) whole' length' second
          have stop : place cells (k + 1) = place cells k + cell.before.length + 1 + cell.after.length := by
            rw [place_succ here, Cell.size]
            omega
          simp only [fusedStep, here, first, effect, second, Follows]
          refine ⟨(List.getElem?_eq_some_iff.mp here).1, cell.before.length + 1 + cell.after.length, by omega, ?_⟩
          rw [stop]
          exact toAfter.trans rest

/-- The spliced code ends, from the place of a cell, exactly as the cells do when each instruction is taken together
with its pieces. -/
theorem splice_ends_iff (proper : Proper form cells) {k : Nat} (within : k ≤ cells.length) (s : σ) (r : ρ) :
    Steps.Ends (step meaning (splice form cells)) (place cells k, s) r ↔
      Steps.Ends (fusedStep meaning cells) (k, s) r := by
  constructor
  · rintro ⟨b, reach, last⟩
    obtain ⟨n, reach⟩ := reach.counted
    induction n using Nat.strongRecOn generalizing k s with
    | _ n ih =>
      have follows := fusedStep_followed meaning proper within s
      cases first : fusedStep meaning cells (k, s) with
      | halt r' =>
        rw [first] at follows
        have same : r = r' := Steps.Ends.unique ⟨b, reach.reaches, last⟩ follows
        rw [← same] at first
        exact ⟨_, .refl _, first⟩
      | run next =>
        rw [first] at follows
        obtain ⟨inside, m, positive, further⟩ := follows
        obtain ⟨fewer, rest⟩ := reach.before last further
        exact (ih (n - m) (by omega) inside next.2 rest.reaches rest).of_reaches (.one first)
  · rintro ⟨b, reach, last⟩
    have run : ∀ {a c : Nat × σ}, Steps.Reaches (fusedStep meaning cells) a c → c = b → a.1 ≤ cells.length →
        Steps.Ends (step meaning (splice form cells)) (place cells a.1, a.2) r := by
      intro a c reach
      induction reach with
      | refl a =>
        intro same inside
        have follows := fusedStep_followed meaning proper inside a.2
        rw [same] at follows ⊢
        rw [last] at follows
        exact follows
      | @cons a mid c first _ ih =>
        intro same inside
        have follows := fusedStep_followed meaning proper inside a.2
        rw [first] at follows
        obtain ⟨inside', n, _, further⟩ := follows
        exact (ih same inside').of_reaches further.reaches
    exact run reach rfl within

end

end CodeSplice
