import HopHop.Steps

namespace PostfixCode

/-! Trees whose nodes combine the values of their operands, and the code that a stack machine runs for them:
the code of the operands, left to right, and then one instruction. -/

open Steps

variable {ν κ ι β ε σ α ρ : Type}

/-- The values of a list of nodes, one after the other. -/
def evalAll (eval : ν → EStateM ε σ β) : List ν → EStateM ε σ (List β)
  | [] => pure []
  | n :: ns => do
    let v ← eval n
    let vs ← evalAll eval ns
    return v :: vs

/-- The code of a list of nodes, one after the other. -/
def codeAll (code : ν → Option (List ι)) : List ν → Option (List ι)
  | [] => some []
  | n :: ns => do
    let first ← code n
    let rest ← codeAll code ns
    return first ++ rest

/-- A condition on a list of nodes, each in the state that the evaluation of those before it leaves. -/
def HoldsAll (eval : ν → EStateM ε σ β) (holds : ν → σ → Prop) : List ν → σ → Prop
  | [], _ => True
  | n :: ns, s => holds n s ∧ ∀ v s', eval n s = .ok v s' → HoldsAll eval holds ns s'

section

variable (shape : ν → Option (κ × List ν)) (apply : κ → List β → EStateM ε σ β) (stuck : ε) (emit : κ → Nat → ι)

/-- The value of a node, to a bounded depth. -/
def eval : Nat → ν → EStateM ε σ β
  | 0, _ => throw stuck
  | depth + 1, n =>
    match shape n with
    | none => throw stuck
    | some (k, ns) => do apply k (← evalAll (eval depth) ns)

/-- The code of a node, to a bounded depth. -/
def code : Nat → ν → Option (List ι)
  | 0, _ => none
  | depth + 1, n =>
    match shape n with
    | none => none
    | some (k, ns) => (codeAll (code depth) ns).map (· ++ [emit k ns.length])

/-- Every combination that the evaluation of a node comes to meets the condition. -/
def Holds (cond : κ → List β → σ → Prop) : Nat → ν → σ → Prop
  | 0, _, _ => True
  | depth + 1, n, s =>
    match shape n with
    | none => True
    | some (k, ns) =>
      HoldsAll (eval shape apply stuck depth) (Holds cond depth) ns s ∧
        ∀ vs s', evalAll (eval shape apply stuck depth) ns s = .ok vs s' → cond k vs s'

/-- A piece of code stands in the whole at this place. -/
def Placed (whole : List ι) (pc : Nat) (piece : List ι) : Prop :=
  ∃ before rest, whole = before ++ piece ++ rest ∧ before.length = pc

end

theorem Placed.left {whole first second : List ι} {pc : Nat} (placed : Placed whole pc (first ++ second)) :
    Placed whole pc first := by
  obtain ⟨before, rest, whole, length⟩ := placed
  exact ⟨before, second ++ rest, by rw [whole]; simp only [List.append_assoc], length⟩

theorem Placed.right {whole first second : List ι} {pc : Nat} (placed : Placed whole pc (first ++ second)) :
    Placed whole (pc + first.length) second := by
  obtain ⟨before, rest, whole, length⟩ := placed
  exact ⟨before ++ first, rest, by rw [whole]; simp only [List.append_assoc], by rw [List.length_append, length]⟩

theorem Placed.getElem? {whole : List ι} {pc : Nat} {ins : ι} (placed : Placed whole pc [ins]) :
    whole[pc]? = some ins := by
  obtain ⟨before, rest, whole, length⟩ := placed
  subst length
  rw [whole, List.append_assoc, List.getElem?_append_right (Nat.le_refl _), Nat.sub_self]
  rfl

theorem evalAll_length {eval : ν → EStateM ε σ β} {ns : List ν} {s s' : σ} {vs : List β}
    (values : evalAll eval ns s = .ok vs s') : vs.length = ns.length := by
  induction ns generalizing s vs with
  | nil => cases values; rfl
  | cons n ns ih =>
    change EStateM.bind _ _ s = _ at values
    unfold EStateM.bind at values
    cases first : eval n s with
    | error e s₁ => rw [first] at values; cases values
    | ok v s₁ =>
      rw [first] at values
      change EStateM.bind _ _ s₁ = _ at values
      unfold EStateM.bind at values
      cases rest : evalAll eval ns s₁ with
      | error e s₂ => rw [rest] at values; cases values
      | ok ws s₂ =>
        rw [rest] at values
        cases values
        rw [List.length_cons, List.length_cons, ih rest]

/-- What a piece of code comes to, as against what the evaluation says: the value on top of the stack, or the
end of the run. -/
def Comes (step : α → Next α ρ) (config : Nat → List β → σ → α) (halted : ε → σ → ρ) (pc size : Nat) (st : List β)
    (s : σ) (push : γ → List β → List β) : EStateM.Result ε σ γ → Prop
  | .ok v s' => ReachesIn step size (config pc st s) (config (pc + size) (push v st) s')
  | .error e s' => ∃ k b, k < size ∧ ReachesIn step k (config pc st s) b ∧ step b = .halt (halted e s')

/-- The machine takes the operands from the stack and does to it what their combination comes to. -/
def Combines (step : α → Next α ρ) (config : Nat → List β → σ → α) (halted : ε → σ → ρ) (pc : Nat) (vs st : List β)
    (s : σ) : EStateM.Result ε σ β → Prop
  | .ok v s' => step (config pc (vs.reverse ++ st) s) = .run (config (pc + 1) (v :: st) s')
  | .error e s' => step (config pc (vs.reverse ++ st) s) = .halt (halted e s')

section

variable {step : α → Next α ρ} {config : Nat → List β → σ → α} {halted : ε → σ → ρ} {pc size more : Nat}
  {st : List β} {s : σ}

/-- A piece that ends the run ends it also when more code follows. -/
theorem Comes.error_mono {γ δ : Type} {push : γ → List β → List β} {push' : δ → List β → List β} {e : ε} {s' : σ}
    (ends : Comes step config halted pc size st s push (.error e s')) :
    Comes step config halted pc (size + more) st s push' (.error e s') := by
  obtain ⟨k, b, within, reach, last⟩ := ends
  exact ⟨k, b, Nat.lt_add_right more within, reach, last⟩

/-- A piece that puts a value on the stack may be followed by one that ends the run. -/
theorem Comes.error_trans {γ δ : Type} {push : γ → List β → List β} {push' push'' : δ → List β → List β} {v : γ}
    {s' s'' : σ} {e : ε} (first : Comes step config halted pc size st s push (.ok v s'))
    (rest : Comes step config halted (pc + size) more (push v st) s' push' (.error e s'')) :
    Comes step config halted pc (size + more) st s push'' (.error e s'') := by
  obtain ⟨k, b, within, reach, last⟩ := rest
  exact ⟨size + k, b, Nat.add_lt_add_left within size, ReachesIn.trans first reach, last⟩

/-- A piece that puts a value on the stack may be followed by one that puts others there. -/
theorem Comes.ok_trans {γ δ η : Type} {push : γ → List β → List β} {push' : δ → List β → List β}
    {push'' : η → List β → List β} {v : γ} {w : δ} {both : η} {s' s'' : σ}
    (first : Comes step config halted pc size st s push (.ok v s'))
    (rest : Comes step config halted (pc + size) more (push v st) s' push' (.ok w s''))
    (same : push' w (push v st) = push'' both st) :
    Comes step config halted pc (size + more) st s push'' (.ok both s'') := by
  have joined := ReachesIn.trans first rest
  rw [Nat.add_assoc, same] at joined
  exact joined

end

theorem codeAll_cons {code : ν → Option (List ι)} {n : ν} {ns : List ν} {c : List ι}
    (whole : codeAll code (n :: ns) = some c) :
    ∃ first rest, code n = some first ∧ codeAll code ns = some rest ∧ c = first ++ rest := by
  obtain ⟨first, head, others⟩ := Option.bind_eq_some_iff.mp whole
  obtain ⟨rest, tail, same⟩ := Option.bind_eq_some_iff.mp others
  exact ⟨first, rest, head, tail, (Option.some.inj same).symm⟩

theorem codeAll_append {code : ν → Option (List ι)} {left right : List ν} {c₁ c₂ : List ι}
    (first : codeAll code left = some c₁) (second : codeAll code right = some c₂) :
    codeAll code (left ++ right) = some (c₁ ++ c₂) := by
  induction left generalizing c₁ with
  | nil => cases first; exact second
  | cons n left ih =>
    obtain ⟨head, tail, atHead, atTail, rfl⟩ := codeAll_cons first
    rw [List.cons_append, codeAll, atHead, ih atTail, List.append_assoc]
    rfl

section

variable {step : α → Next α ρ} {config : Nat → List β → σ → α} {halted : ε → σ → ρ} {whole : List ι} {cap : Nat}

/-- The code of a list of nodes puts their values on the stack, the last one on top, when each node's code does. -/
theorem evalAll_comes {eval : ν → EStateM ε σ β} {holds : ν → σ → Prop} {code : ν → Option (List ι)}
    (positive : ∀ n c, code n = some c → 0 < c.length)
    (node : ∀ n c pc st s, holds n s → code n = some c → Placed whole pc c → st.length + c.length ≤ cap →
      Comes step config halted pc c.length st s List.cons (eval n s)) :
    ∀ (ns : List ν) (c : List ι) (pc : Nat) (st : List β) (s : σ), HoldsAll eval holds ns s →
      codeAll code ns = some c → Placed whole pc c → st.length + c.length ≤ cap →
      Comes step config halted pc c.length st s (fun vs st => vs.reverse ++ st) (evalAll eval ns s) := by
  intro ns
  induction ns with
  | nil =>
    intro c pc st s _ coded _ _
    obtain rfl := Option.some.inj coded
    exact .refl _
  | cons n ns ih =>
    intro c pc st s holds coded placed room
    obtain ⟨first, rest, head, tail, rfl⟩ := codeAll_cons coded
    rw [List.length_append] at room ⊢
    have one := node n first pc st s holds.1 head placed.left (by omega)
    change Comes _ _ _ _ _ _ _ _ (EStateM.bind _ _ s)
    unfold EStateM.bind
    cases value : eval n s with
    | error e s' =>
      rw [value] at one
      exact one.error_mono
    | ok v s' =>
      rw [value] at one
      have size := positive n first head
      have others := ih rest (pc + first.length) (v :: st) s' (holds.2 v s' value) tail placed.right
        (by rw [List.length_cons]; omega)
      change Comes _ _ _ _ _ _ _ _ (EStateM.bind _ _ s')
      unfold EStateM.bind
      cases values : evalAll eval ns s' with
      | error e s'' =>
        rw [values] at others
        exact one.error_trans others
      | ok vs s'' =>
        rw [values] at others
        refine one.ok_trans others ?_
        rw [List.reverse_cons, List.append_assoc]
        rfl

variable {shape : ν → Option (κ × List ν)} {apply : κ → List β → EStateM ε σ β} {stuck : ε} {emit : κ → Nat → ι}
  {cond : κ → List β → σ → Prop}

theorem code_length_pos : ∀ (depth : Nat) (n : ν) (c : List ι), code shape emit depth n = some c → 0 < c.length
  | 0, _, _, coded => nomatch coded
  | depth + 1, n, c, coded => by
    unfold code at coded
    split at coded
    · exact nomatch coded
    · obtain ⟨cs, _, rfl⟩ := Option.map_eq_some_iff.mp coded
      rw [List.length_append]
      exact Nat.succ_pos _

variable (whole cap) in
/-- The code of a node puts its value on the stack, or ends the run as the evaluation does, when each instruction
takes the operands of its node from the stack and combines them. -/
theorem eval_comes
    (combines : ∀ n k ns vs pc st s, shape n = some (k, ns) → vs.length = ns.length → cond k vs s →
      whole[pc]? = some (emit k ns.length) → st.length < cap →
      Combines step config halted pc vs st s (apply k vs s))
    (depth : Nat) (n : ν) (c : List ι) (pc : Nat) (st : List β) (s : σ)
    (holds : Holds shape apply stuck cond depth n s) (coded : code shape emit depth n = some c)
    (placed : Placed whole pc c) (room : st.length + c.length ≤ cap) :
    Comes step config halted pc c.length st s List.cons (eval shape apply stuck depth n s) := by
  induction depth generalizing n c pc st s with
  | zero => cases coded
  | succ depth ih =>
    unfold Holds at holds
    unfold code at coded
    unfold eval
    cases shaped : shape n with
    | none => rw [shaped] at coded; cases coded
    | some parts =>
      obtain ⟨k, ns⟩ := parts
      rw [shaped] at coded holds
      obtain ⟨cs, operands, rfl⟩ := Option.map_eq_some_iff.mp coded
      rw [List.length_append] at room
      have first := evalAll_comes (code_length_pos depth) ih ns cs pc st s holds.1 operands placed.left
        (Nat.le_of_add_right_le (Nat.add_assoc _ _ _ ▸ room))
      change Comes _ _ _ _ _ _ _ _ (EStateM.bind _ _ s)
      unfold EStateM.bind
      rw [List.length_append]
      cases values : evalAll (eval shape apply stuck depth) ns s with
      | error e s' =>
        rw [values] at first
        exact first.error_mono
      | ok vs s' =>
        rw [values] at first
        have last := combines n k ns vs (pc + cs.length) st s' shaped (evalAll_length values) (holds.2 vs s' values)
          placed.right.getElem? (by rw [List.length_singleton] at room; omega)
        change Comes _ _ _ _ _ _ _ _ (apply k vs s')
        cases result : apply k vs s' with
        | error e s'' =>
          rw [result] at last
          have stops : Comes step config halted (pc + cs.length) 1 (vs.reverse ++ st) s' List.cons (.error e s'') :=
            ⟨0, _, Nat.zero_lt_one, .refl _, last⟩
          exact first.error_trans stops
        | ok v s'' =>
          rw [result] at last
          have joined := ReachesIn.trans first (ReachesIn.one last)
          exact joined

end

end PostfixCode
