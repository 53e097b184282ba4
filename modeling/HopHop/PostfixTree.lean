import HopHop.PostfixCode

namespace PostfixCode

/-! Trees that are written out with something given to each node, in the order of their code. -/

variable {ν κ ι α β ε σ : Type}

/-- A node with what it was given, and its operands. -/
inductive Tree (κ α : Type)
  | node (k : κ) (given : α) (operands : List (Tree κ α))

def Tree.shape : Tree κ α → Option ((κ × α) × List (Tree κ α))
  | .node k given operands => some ((k, given), operands)

section

variable (shape : ν → Option (κ × List ν)) (emit : κ → Nat → ι) (give : ι → EStateM ε σ α) (stuck : ε)

/-- The tree of a node, to a bounded depth. What a node is given is computed when its operands have theirs. -/
def writeOut : Nat → ν → EStateM ε σ (Tree κ α) :=
  eval shape (fun k ts => do return .node k (← give (emit k ts.length)) ts) stuck

/-- The instruction of a node together with what it was given. -/
def emitGiven (k : κ × α) (operands : Nat) : ι × α := (emit k.1 operands, k.2)

/-- The code of a tree that was written out. -/
def Tree.code (treeDepth : Nat) (t : Tree κ α) : Option (List (ι × α)) :=
  PostfixCode.code Tree.shape (emitGiven emit) treeDepth t

end

section

variable {γ : Type} {x : EStateM ε σ β} {f : β → EStateM ε σ γ} {s s' : σ} {e : ε}

theorem bind_ok {v : β} (done : x s = .ok v s') : (x >>= f) s = f v s' := by
  change EStateM.bind x f s = _
  unfold EStateM.bind
  rw [done]

theorem bind_error (stops : x s = .error e s') : (x >>= f) s = .error e s' := by
  change EStateM.bind x f s = _
  unfold EStateM.bind
  rw [stops]

end

section

variable {eval : ν → EStateM ε σ β} {s s' : σ} {e : ε}

theorem evalAll_append (ns ms : List ν) : evalAll eval (ns ++ ms) =
    (do let vs ← evalAll eval ns; let ws ← evalAll eval ms; return vs ++ ws) := by
  induction ns with
  | nil =>
    funext s
    change evalAll eval ms s = EStateM.bind (evalAll eval ms) _ s
    unfold EStateM.bind
    cases evalAll eval ms s <;> rfl
  | cons n ns ih =>
    rw [List.cons_append, evalAll, ih, evalAll]
    simp only [bind_assoc, pure_bind]
    rfl

theorem evalAll_append_ok {ns ms : List ν} {vs ws : List β} {s'' : σ} (first : evalAll eval ns s = .ok vs s')
    (rest : evalAll eval ms s' = .ok ws s'') : evalAll eval (ns ++ ms) s = .ok (vs ++ ws) s'' := by
  rw [evalAll_append, bind_ok first, bind_ok rest]
  rfl

theorem evalAll_append_error {ns ms : List ν} (first : evalAll eval ns s = .error e s') :
    evalAll eval (ns ++ ms) s = .error e s' := by
  rw [evalAll_append, bind_error first]

theorem evalAll_append_late {ns ms : List ν} {vs : List β} {s'' : σ} (first : evalAll eval ns s = .ok vs s')
    (rest : evalAll eval ms s' = .error e s'') : evalAll eval (ns ++ ms) s = .error e s'' := by
  rw [evalAll_append, bind_ok first, bind_error rest]

theorem evalAll_singleton {n : ν} {v : β} (value : eval n s = .ok v s') : evalAll eval [n] s = .ok [v] s' := by
  rw [evalAll, bind_ok value]
  rfl

end

/-- What writing out comes to, as against giving something to each instruction of the code in turn: it stops where that
stops, and otherwise the code it has written is the old one with what was given. -/
def Gives (give : ι → EStateM ε σ α) (code : List ι) (s : σ) (written : β → List (ι × α) → Prop) :
    EStateM.Result ε σ β → Prop
  | .ok t s' => ∃ given, evalAll give code s = .ok given s' ∧ written t (code.zip given)
  | .error e s' => evalAll give code s = .error e s'

section

variable {shape : ν → Option (κ × List ν)} {emit : κ → Nat → ι} {give : ι → EStateM ε σ α} {stuck : ε}

/-- The instructions of a code are those of the nodes. -/
theorem code_emits {treeDepth : Nat} {n : ν}
    {c : List ι} (coded : code shape emit treeDepth n = some c) :
    ∀ i ∈ c, ∃ k operands, i = emit k operands := by
  induction treeDepth generalizing n c with
  | zero => cases coded
  | succ treeDepth ih =>
    unfold code at coded
    cases shaped : shape n with
    | none => rw [shaped] at coded; cases coded
    | some parts =>
      rw [shaped] at coded
      obtain ⟨cs, operands, rfl⟩ := Option.map_eq_some_iff.mp coded
      have all : ∀ (ns : List ν) (cs : List ι), codeAll (code shape emit treeDepth) ns = some cs →
          ∀ i ∈ cs, ∃ k operands, i = emit k operands := by
        intro ns
        induction ns with
        | nil =>
          intro cs operands i member
          cases Option.some.inj operands
          cases member
        | cons n ns others =>
          intro cs operands i member
          obtain ⟨first, rest, head, tail, rfl⟩ := codeAll_cons operands
          rcases List.mem_append.mp member with member | member
          · exact ih head i member
          · exact others rest tail i member
      intro i member
      rcases List.mem_append.mp member with member | member
      · exact all _ cs operands i member
      · exact ⟨_, _, List.mem_singleton.mp member⟩

theorem evalAll_gives {write : ν → EStateM ε σ β} {code : ν → Option (List ι)} {coded : β → Option (List (ι × α))}
    (each : ∀ n c s, code n = some c → Gives give c s (fun t w => coded t = some w) (write n s)) (ns : List ν)
    (c : List ι) (s : σ) (codes : codeAll code ns = some c) :
    Gives give c s (fun ts w => codeAll coded ts = some w) (evalAll write ns s) := by
  induction ns generalizing c s with
  | nil =>
    obtain rfl := Option.some.inj codes
    exact ⟨[], rfl, rfl⟩
  | cons n ns ih =>
    obtain ⟨first, rest, head, tail, rfl⟩ := codeAll_cons codes
    have one := each n first s head
    rw [evalAll]
    cases written : write n s with
    | error e s' =>
      rw [written] at one
      rw [bind_error written]
      exact evalAll_append_error one
    | ok t s' =>
      rw [written] at one
      obtain ⟨given, gives, codedOne⟩ := one
      have others := ih rest s' tail
      rw [bind_ok written]
      cases more : evalAll write ns s' with
      | error e s'' =>
        rw [more] at others
        rw [bind_error more]
        exact evalAll_append_late gives others
      | ok ts s'' =>
        rw [more] at others
        obtain ⟨given', gives', codedMore⟩ := others
        rw [bind_ok more]
        refine ⟨given ++ given', evalAll_append_ok gives gives', ?_⟩
        rw [List.zip_append (evalAll_length gives).symm]
        have whole : codeAll coded [t] = some (first.zip given) := by
          rw [codeAll, codedOne]
          exact congrArg some (List.append_nil _)
        exact codeAll_append whole codedMore

theorem writeOut_succ {n : ν} {k : κ} {ns : List ν} (shaped : shape n = some (k, ns)) (treeDepth : Nat) :
    writeOut shape emit give stuck (treeDepth + 1) n =
      (do
        let ts ← evalAll (writeOut shape emit give stuck treeDepth) ns
        return .node k (← give (emit k ts.length)) ts) := by
  unfold writeOut PostfixCode.eval
  rw [shaped]

variable (give stuck) in
/-- Writing out a tree gives to the instructions of its code, from the first to the last, and the tree that is written
has that code. -/
theorem writeOut_gives (treeDepth : Nat) (n : ν) (c : List ι) (s : σ) (coded : code shape emit treeDepth n = some c) :
    Gives give c s (fun t w => Tree.code emit treeDepth t = some w) (writeOut shape emit give stuck treeDepth n s) := by
  induction treeDepth generalizing n c s with
  | zero => cases coded
  | succ treeDepth ih =>
    unfold code at coded
    cases shaped : shape n with
    | none => rw [shaped] at coded; cases coded
    | some parts =>
      obtain ⟨k, ns⟩ := parts
      rw [shaped] at coded
      obtain ⟨cs, operands, rfl⟩ := Option.map_eq_some_iff.mp coded
      have first := evalAll_gives ih ns cs s operands
      rw [writeOut_succ shaped]
      cases written : evalAll (writeOut shape emit give stuck treeDepth) ns s with
      | error e s' =>
        rw [written] at first
        rw [bind_error written]
        exact evalAll_append_error first
      | ok ts s' =>
        rw [written] at first
        obtain ⟨given, gives, codedAll⟩ := first
        have length : ts.length = ns.length := evalAll_length written
        rw [bind_ok written, length]
        cases last : give (emit k ns.length) s' with
        | error e s'' =>
          rw [bind_error last]
          refine evalAll_append_late gives ?_
          rw [evalAll, bind_error last]
        | ok a s'' =>
          rw [bind_ok last]
          refine ⟨given ++ [a], evalAll_append_ok gives (evalAll_singleton last), ?_⟩
          rw [List.zip_append (evalAll_length gives).symm]
          change (codeAll (Tree.code emit treeDepth) ts).map _ = _
          rw [codedAll]
          change some (cs.zip given ++ [(emit k ts.length, a)]) = _
          rw [length]
          rfl

end

/-- What holds of the value of each node holds of the values of a list of nodes. -/
theorem evalAll_each {eval : ν → EStateM ε σ β} {good : β → Prop}
    (each : ∀ n v s s', eval n s = .ok v s' → good v) {ns : List ν} {vs : List β} {s s' : σ}
    (values : evalAll eval ns s = .ok vs s') : ∀ v ∈ vs, good v := by
  induction ns generalizing vs s with
  | nil =>
    cases values
    exact fun v member => by cases member
  | cons n ns ih =>
    rw [evalAll] at values
    cases first : eval n s with
    | error e s₁ =>
      rw [bind_error first] at values
      cases values
    | ok w s₁ =>
      rw [bind_ok first] at values
      cases rest : evalAll eval ns s₁ with
      | error e s₂ =>
        rw [bind_error rest] at values
        cases values
      | ok ws s₂ =>
        rw [bind_ok rest] at values
        cases values
        intro v member
        rcases List.mem_cons.mp member with rfl | member
        · exact each n v s s₁ first
        · exact ih rest v member

theorem holdsAll_each {eval : ν → EStateM ε σ β} {holds : ν → σ → Prop} (ns : List ν) (each : ∀ n ∈ ns, ∀ s, holds n s)
    (s : σ) : HoldsAll eval holds ns s := by
  induction ns generalizing s with
  | nil => trivial
  | cons n ns ih =>
    exact ⟨each n (List.mem_cons_self ..) s, fun _ _ _ => ih (fun m member => each m (List.mem_cons_of_mem _ member)) _⟩

/-- What holds of every node and its number of operands holds in the evaluation of the tree that is written out. -/
theorem writeOut_holds {shape : ν → Option (κ × List ν)} {emit : κ → Nat → ι} {give : ι → EStateM ε σ α} {stuck : ε}
    {apply : κ × α → List β → EStateM ε σ β} {good : κ → Nat → Prop}
    (each : ∀ n k ns, shape n = some (k, ns) → good k ns.length) {treeDepth : Nat} {n : ν} {t : Tree κ α} {s s' : σ}
    (written : writeOut shape emit give stuck treeDepth n s = .ok t s') (after : σ) :
    Holds Tree.shape apply stuck (fun k vs _ => good k.1 vs.length) treeDepth t after := by
  induction treeDepth generalizing n t s s' after with
  | zero => cases written
  | succ treeDepth ih =>
    cases shaped : shape n with
    | none =>
      unfold writeOut PostfixCode.eval at written
      rw [shaped] at written
      cases written
    | some parts =>
      obtain ⟨k, ns⟩ := parts
      rw [writeOut_succ shaped] at written
      cases operands : evalAll (writeOut shape emit give stuck treeDepth) ns s with
      | error e s₁ =>
        rw [bind_error operands] at written
        cases written
      | ok ts s₁ =>
        rw [bind_ok operands] at written
        cases given : give (emit k ts.length) s₁ with
        | error e s₂ =>
          rw [bind_error given] at written
          cases written
        | ok a s₂ =>
          rw [bind_ok given] at written
          cases written
          have deeper : ∀ t ∈ ts, ∀ s, Holds Tree.shape apply stuck (fun k vs _ => good k.1 vs.length) treeDepth t s :=
            evalAll_each (fun _ _ _ _ done => ih done) operands
          refine ⟨holdsAll_each ts deeper after, fun vs s₃ values => ?_⟩
          have count : vs.length = ns.length := (evalAll_length values).trans (evalAll_length operands)
          have fits : good k vs.length := by
            rw [count]
            exact each n k ns shaped
          exact fits

end PostfixCode
