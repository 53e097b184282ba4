import HopHop.MirExprShape
import HopHop.MirBounds

namespace HopHop

/-! One instruction of a chunk against the action of the node it was built for. -/

/-- How many operands an action takes. -/
def ExprAction.Takes : ExprAction → Nat → Prop
  | .int, n | .rune, n | .float, n | .bool, n | .string, n | .null, n | .ident, n => n = 0
  | .size bytes, n => n = 0 ∧ bytes ≤ 16
  | .tuple, n => n ≤ uint16Max
  | .seqLen, n | .cstr, n | .unary _, n | .field, n | .cast _ _, n => n = 1
  | .binary _, n | .index, n => n = 2
  | .slice flags, n => n = 1 + (if flags &&& 2 ≠ 0 then 1 else 0) + (if flags &&& 4 ≠ 0 then 1 else 0)
  | .call _ _, _ => True

section Arity

variable (ast : Ast) (src : List UInt8)

theorem siblings_length {room : Nat} {child : Int} {ns : List Int} (chain : siblings ast room child = some ns) :
    ns.length ≤ room := by
  induction room generalizing child ns with
  | zero =>
    unfold siblings at chain
    split at chain <;> cases chain
    exact Nat.le_refl _
  | succ room ih =>
    unfold siblings at chain
    split at chain
    · cases chain
      exact Nat.zero_le _
    · obtain ⟨rest, tail, rfl⟩ := Option.map_eq_some_iff.mp chain
      exact Nat.succ_le_succ (ih tail)

theorem builtinTypeSize_le {typeNode : Int} {size : Nat} (known : builtinTypeSize ast src typeNode = some size) :
    size ≤ 16 := by
  unfold builtinTypeSize at known
  simp only at known
  repeat' split at known
  all_goals cases known <;> decide

theorem inferExprSize_le {exprNode : Int} {size : Nat} (known : inferExprSize ast src exprNode = some size) :
    size ≤ 16 := by
  have cast : ∀ typeNode, builtinTypeSize ast src typeNode = some size → size ≤ 16 :=
    fun _ known => builtinTypeSize_le ast src known
  grind [inferExprSize]

theorem sliceBound_length {has : Bool} {idxNode next : Int} {ns : List Int}
    (bound : sliceBound ast has idxNode = some (ns, next)) : ns.length = if has then 1 else 0 := by
  unfold sliceBound at bound
  cases has with
  | false => cases bound; rfl
  | true =>
    split at bound
    · rename_i absent
      cases absent
    · split at bound <;> cases bound
      rfl

theorem sliceOperands_length {n : AstNode} {ns : List Int} (operands : sliceOperands ast n = some ns) :
    ns.length = 1 + (if n.has AstFlag.INDEX_HAS_START then 1 else 0) + (if n.has AstFlag.INDEX_HAS_END then 1 else 0) := by
  unfold sliceOperands at operands
  obtain ⟨⟨starts, next⟩, start, operands⟩ := Option.bind_eq_some_iff.mp operands
  obtain ⟨⟨stops, last⟩, stop, operands⟩ := Option.bind_eq_some_iff.mp operands
  simp only at operands
  split at operands
  · cases operands
  · cases operands
    rw [List.length_cons, List.length_append, sliceBound_length ast start, sliceBound_length ast stop]
    omega

/-- A flag of the low half survives the cut of the flags to 16 bits. -/
theorem toUInt16_flag (flags mask bit : UInt32) (within : mask &&& bit = bit) (low : bit.toNat < 2 ^ 16) :
    (flags &&& mask).toUInt16 &&& bit.toUInt16 = 0 ↔ flags &&& bit = 0 := by
  rw [← UInt32.toUInt16_and, UInt32.and_assoc, within]
  have small : (flags &&& bit).toNat < 2 ^ 16 := by
    rw [UInt32.toNat_and]
    exact Nat.lt_of_le_of_lt Nat.and_le_right low
  rw [← UInt16.toNat_inj, ← UInt32.toNat_inj, UInt32.toNat_toUInt16, Nat.mod_eq_of_lt small]
  rfl

theorem callShape_takes {nodeId : Int} {n : AstNode} {k : Combine} {ns : List Int}
    (shape : callShape ast src nodeId n = some (k, ns)) : k.action.Takes ns.length := by
  have takes : ∀ (callee : AstNode) (receiver spread : Bool) (argc : Nat),
      (callAction src callee receiver argc spread).Takes argc := by
    intro callee receiver spread argc
    unfold callAction
    split
    · rename_i len
      exact len.2.2
    · split
      · rename_i cstr
        exact cstr.2
      · trivial
  unfold callShape at shape
  simp only at shape
  split at shape
  · cases shape
  · split at shape
    · cases shape
      exact takes _ _ _ _
    · obtain ⟨⟨args, spread⟩, _, same⟩ := Option.map_eq_some_iff.mp shape
      cases same
      exact takes _ _ _ _

theorem exprShape_takes {nodeId : Int} {k : Combine} {ns : List Int}
    (shape : exprShape ast src nodeId = some (k, ns)) : k.action.Takes ns.length := by
  unfold exprShape at shape
  simp only at shape
  split at shape
  · cases shape
  · split at shape
    case h_8 =>
      split at shape
      · cases shape
      · obtain ⟨size, known, same⟩ := Option.map_eq_some_iff.mp shape
        cases same
        refine ⟨rfl, ?_⟩
        split at known
        · exact builtinTypeSize_le ast src known
        · exact inferExprSize_le ast src known
    case h_9 =>
      obtain ⟨ns', chain, nonempty⟩ := Option.bind_eq_some_iff.mp shape
      split at nonempty <;> cases nonempty
      exact siblings_length ast chain
    case h_10 =>
      obtain ⟨ns', chain, same⟩ := Option.map_eq_some_iff.mp shape
      cases same
      exact siblings_length ast chain
    case h_11 => exact callShape_takes ast src shape
    case h_12 | h_13 | h_15 =>
      split at shape <;> cases shape
      rfl
    case h_14 =>
      split at shape
      · obtain ⟨ns', operands, same⟩ := Option.map_eq_some_iff.mp shape
        cases same
        have start := not_congr (toUInt16_flag (ast.node nodeId).flags 6 2 rfl (by decide))
        have stop := not_congr (toUInt16_flag (ast.node nodeId).flags 6 4 rfl (by decide))
        rw [sliceOperands_length ast operands]
        change _ = 1 + (if ((ast.node nodeId).flags &&& 6).toUInt16 &&& UInt32.toUInt16 2 ≠ 0 then 1 else 0) +
          if ((ast.node nodeId).flags &&& 6).toUInt16 &&& UInt32.toUInt16 4 ≠ 0 then 1 else 0
        simp only [start, stop, AstNode.has, decide_eq_true_eq]
        rfl
      · obtain ⟨_, _, same⟩ := Option.map_eq_some_iff.mp shape
        cases same
        rfl
    case h_16 =>
      obtain ⟨_, _, target⟩ := Option.bind_eq_some_iff.mp shape
      split at target <;> cases target
      rfl
    case h_17 => cases shape
    all_goals
      cases shape
      rfl

end Arity

section Conditions

variable {σ : Type} (m : Machine σ) (env : ExecEnv σ)

/-- The place a callback is told, for a node of a chunk: there is no program, and the instruction is that of the
node. -/
def Combine.site (k : Combine) (operands : Nat) : CallSite := ⟨none, none, k.inst operands⟩

/-- What a step of a chunk needs. A callback that is asked for a name answers for the empty range, which is what it
is given, as it does for the name; a call has fewer operands than its flags leave room for, and has none where the
callback answers that is asked before the operands are taken; and a cast meets no coercion, which a chunk has no
types for. -/
def Combine.Clear (k : Combine) (vs : List CTFEValue) (s : σ) : Prop :=
  match k.action with
  | .ident => loadIdent env 0 0 s = loadIdent env k.start k.stop s
  | .field => ∀ base ∈ vs, aggGet env base 0 0 s = aggGet env base k.start k.stop s
  | .call _ _ =>
    vs.length < 0x4000 ∧
      callValue m env (k.site vs.length) 0 0 vs s = callValue m env (k.site vs.length) k.start k.stop vs s ∧
      ∀ v s', callPre env (k.site vs.length) 0 0 s = .ok (some v) s' → vs = []
  | .cast target _ => env.coerceValueForType = none ∨ ∀ input ∈ vs, evalCast target input = none
  | _ => True

end Conditions

section Step

variable {σ : Type} {m : Machine σ} {run : ExecRun σ} {pc : Nat} {st : List CTFEValue} {s : σ}

/-- An instruction does to the stack and the memory what a computation of a value says. -/
def Follows (pc : Nat) (st : List CTFEValue) : EStateM.Result Stop σ CTFEValue →
    EStateM.Result Stop (Config σ) Unit → Prop
  | .ok v s, r => r = .ok () ⟨pc, v :: st, 0, s⟩
  | .error stop s, r => ∃ rest, r = .error stop ⟨pc, rest, 0, s⟩

theorem onMem_ok {α : Type} {x : Exec σ α} {a : α} {s' : σ} (done : x s = .ok a s') :
    onMem x (⟨pc, st, 0, s⟩ : Config σ) = .ok a ⟨pc, st, 0, s'⟩ := by
  unfold onMem
  rw [done]

theorem onMem_error {α : Type} {x : Exec σ α} {stop : Stop} {s' : σ} (stops : x s = .error stop s') :
    onMem x (⟨pc, st, 0, s⟩ : Config σ) = .error stop ⟨pc, st, 0, s'⟩ := by
  unfold onMem
  rw [stops]

theorem pushResult_follows (x : Exec σ CTFEValue) (room : st.length < run.stackCap) :
    Follows pc st (x s) (pushResult m run x ⟨pc, st, 0, s⟩) := by
  change Follows pc st (x s) (EStateM.bind (onMem x) (push m run) ⟨pc, st, 0, s⟩)
  unfold EStateM.bind onMem
  cases value : x s with
  | error stop s' => exact ⟨st, rfl⟩
  | ok v s' =>
    simp only
    exact if_neg (Nat.not_le.mpr room)

/-- A result for another computation with the same outcome. -/
theorem pushResult_follows_of_eq {x y : Exec σ CTFEValue} (same : y s = x s) (room : st.length < run.stackCap) :
    Follows pc st (x s) (pushResult m run y ⟨pc, st, 0, s⟩) :=
  same ▸ pushResult_follows y room

theorem popArgs_reverse (vs : List CTFEValue) :
    popArgs vs.length (⟨pc, vs.reverse ++ st, 0, s⟩ : Config σ) = .ok vs ⟨pc, st, 0, s⟩ := by
  unfold popArgs
  have taken : (vs.reverse ++ st).take vs.length = vs.reverse := by
    rw [← List.length_reverse, List.take_left]
  have rest : (vs.reverse ++ st).drop vs.length = st := by
    have length : vs.length = vs.reverse.length := List.length_reverse.symm
    rw [length, List.drop_left]
  simp only [taken, rest, List.reverse_reverse]
  rw [if_neg (by rw [List.length_append, List.length_reverse]; omega)]

theorem callTok_count (n : Nat) (spread : Bool) (few : n < 0x4000) : callArgCountFromTok (callTok n spread) = n := by
  have flag : (if spread then callArgFlagSpreadLast else 0).toNat &&& 2 ^ 14 - 1 = 0 := by
    cases spread <;> decide
  have mask : (~~~callArgFlagMask).toNat = 2 ^ 14 - 1 := by decide
  unfold callArgCountFromTok callTok
  rw [UInt16.toNat_and, UInt16.toNat_or, mask, Nat.and_or_distrib_right, flag, Nat.or_zero,
    Nat.and_two_pow_sub_one_eq_mod, UInt16.toNat_ofNat']
  omega

/-- The operands of an action that takes a fixed number of them. -/
theorem length_one {vs : List CTFEValue} (one : vs.length = 1) : ∃ a, vs = [a] := List.length_eq_one_iff.mp one

theorem CastTarget.ofCode_code (target : CastTarget) : castTargetOfCode target.code = target := by
  cases target <;> rfl

/-- A computation behind a name that a chunk resolves to the empty range. -/
theorem resolveSymbolName_chunk (noProgram : run.program = none) (ins : MirInst) (kind : MirSymbolKind) :
    resolveSymbolName run ins kind = (pure (0, 0) : Exec σ (UInt32 × UInt32)) := by
  unfold resolveSymbolName
  rw [noProgram]

theorem resolveFieldName_chunk (noProgram : run.program = none) (ins : MirInst) :
    resolveFieldName run ins = (pure (0, 0) : Exec σ (UInt32 × UInt32)) := by
  unfold resolveFieldName
  rw [noProgram]

section Calls

variable (room : st.length < run.stackCap)

include room

/-- Work on the memory before the value is computed. -/
theorem onMem_seq_follows {α : Type} (x : Exec σ α) (y : α → Exec σ CTFEValue) :
    Follows pc st ((x >>= y) s) ((do let a ← onMem x; pushResult m run (y a)) ⟨pc, st, 0, s⟩) := by
  cases first : x s with
  | error stop s' =>
    rw [run_bind_error first, run_bind_error (onMem_error first)]
    exact ⟨st, rfl⟩
  | ok a s' =>
    rw [run_bind_ok first, run_bind_ok (onMem_ok first)]
    exact pushResult_follows (y a) room

theorem tupleMake_follows (k : Combine) (action : k.action = .tuple) (vs : List CTFEValue)
    (few : vs.length ≤ uint16Max) :
    Follows pc st (tupleValue m run.env (k.inst vs.length) k.node vs s)
      (tupleMake m run (k.inst vs.length) ⟨pc, vs.reverse ++ st, 0, s⟩) := by
  have ins : k.inst vs.length = ⟨.TUPLE_MAKE, UInt16.ofNat vs.length, k.node, k.start, k.stop⟩ := by
    unfold Combine.inst
    rw [action]
  have count : (k.inst vs.length).tok.toNat = vs.length := by
    rw [ins, UInt16.toNat_ofNat']
    exact Nat.mod_eq_of_lt (Nat.lt_succ_of_le few)
  have node : (k.inst vs.length).aux = k.node := by rw [ins]
  unfold tupleMake tupleValue installed
  cases run.env.makeTuple with
  | none => exact ⟨vs.reverse ++ st, rfl⟩
  | some makeTuple =>
    simp only [count, node]
    rw [run_bind_ok (popArgs_reverse vs)]
    exact onMem_seq_follows room _ fun _ => _

/-- The name of a call that a chunk makes is the empty range. -/
theorem callByName_follows (noProgram : run.program = none) (noFunction : run.function = none) (k : Combine)
    {receiver spread : Bool} (action : k.action = .call receiver spread) (vs : List CTFEValue)
    (clear : k.Clear m run.env vs s) :
    Follows pc st (callValue m run.env (k.site vs.length) k.start k.stop vs s)
      (callByName m run (k.inst vs.length) ⟨pc, vs.reverse ++ st, 0, s⟩) := by
  unfold Combine.Clear at clear
  rw [action] at clear
  obtain ⟨few, same, early⟩ := clear
  rw [← same]
  have count : callArgCountFromTok (k.inst vs.length).tok = vs.length := by
    unfold Combine.inst
    rw [action]
    exact callTok_count vs.length spread few
  have site : (⟨run.program, run.function, k.inst vs.length⟩ : CallSite) = k.site vs.length := by
    rw [noProgram, noFunction]
    rfl
  unfold callByName callValue
  simp only [site, resolveSymbolName_chunk noProgram]
  rw [run_bind_ok (x := onMem (pure (0, 0))) (a := (0, 0)) (s := ⟨pc, vs.reverse ++ st, 0, s⟩) rfl]
  cases asked : callPre run.env (k.site vs.length) 0 0 s with
  | error stop s' =>
    rw [run_bind_error asked, run_bind_error (onMem_error asked)]
    exact ⟨_, rfl⟩
  | ok answer s' =>
    rw [run_bind_ok asked, run_bind_ok (onMem_ok asked)]
    cases answer with
    | some v =>
      obtain rfl := early v s' asked
      exact if_neg (Nat.not_le.mpr room)
    | none =>
      cases resolve : run.env.resolveCall with
      | none =>
        unfold callResolved
        rw [resolve]
        exact ⟨vs.reverse ++ st, rfl⟩
      | some call =>
        simp only [Option.isNone_some, Bool.false_eq_true, if_false, count]
        rw [run_bind_ok (popArgs_reverse vs)]
        exact pushResult_follows _ room

theorem castInst_follows (noProgram : run.program = none) (k : Combine) {target : CastTarget} {typeNode : UInt32}
    (action : k.action = .cast target typeNode) (input : CTFEValue) (clear : k.Clear m run.env [input] s) :
    Follows pc st (castValue target input s) (castInst m run (k.inst 1) ⟨pc, input :: st, 0, s⟩) := by
  unfold Combine.Clear at clear
  rw [action] at clear
  have code : castTargetOfCode (k.inst 1).tok = target := by
    unfold Combine.inst
    rw [action]
    exact target.ofCode_code
  unfold castInst
  rw [run_bind_ok (x := pop) (a := input) (s := ⟨pc, st, 0, s⟩) rfl]
  refine pushResult_follows_of_eq ?_ room
  rw [code, noProgram]
  cases cast : evalCast target input with
  | none =>
    have refused : castValue target input s = .error .notConst s := by
      unfold castValue
      rw [cast]
      rfl
    rw [refused, run_bind_error refused]
  | some out =>
    have done : castValue target input s = .ok out s := by
      unfold castValue
      rw [cast]
      rfl
    rw [done, run_bind_ok done]
    rcases clear with uninstalled | refuses
    · unfold coerceValueForType tryCoerce
      rw [uninstalled]
      split <;> rfl
    · rw [refuses input (List.mem_singleton.mpr rfl)] at cast
      cases cast

/-- The bounds come from the stack in the order end, start. -/
theorem sliceMake_follows (k : Combine) {flags : UInt16} (action : k.action = .slice flags) (vs : List CTFEValue)
    (takes : k.action.Takes vs.length) {depth : Nat} :
    Follows pc st (k.apply m run.env depth vs s)
      (sliceMake m run (k.inst vs.length) ⟨pc, vs.reverse ++ st, 0, s⟩) := by
  obtain ⟨_, node, start, stop⟩ := k
  obtain rfl := action
  unfold ExprAction.Takes at takes
  unfold Combine.apply sliceMake sliceValue
  obtain ⟨base, bounds, rfl⟩ : ∃ base bounds, vs = base :: bounds :=
    List.exists_cons_of_length_pos (by simp only at takes; omega)
  cases run.env.sliceValue with
  | none => exact ⟨_, rfl⟩
  | some slice =>
    have tok : (Combine.inst ⟨.slice flags, node, start, stop⟩ (base :: bounds).length).tok = flags := rfl
    simp only [tok]
    simp only [List.length_cons] at takes
    by_cases hasStart : flags &&& 2 ≠ 0 <;> by_cases hasEnd : flags &&& 4 ≠ 0
    · obtain ⟨lo, hi, rfl⟩ : ∃ lo hi, bounds = [lo, hi] := List.length_eq_two.mp (by simp_all)
      simp only [if_pos hasStart, if_pos hasEnd]
      exact pushResult_follows _ room
    · obtain ⟨lo, rfl⟩ : ∃ lo, bounds = [lo] := length_one (by simp_all)
      simp only [if_pos hasStart, if_neg hasEnd]
      exact pushResult_follows _ room
    · obtain ⟨hi, rfl⟩ : ∃ hi, bounds = [hi] := length_one (by simp_all)
      simp only [if_neg hasStart, if_pos hasEnd]
      exact pushResult_follows _ room
    · obtain rfl : bounds = [] := List.length_eq_zero_iff.mp (by simp_all)
      simp only [if_neg hasStart, if_neg hasEnd]
      exact pushResult_follows _ room

end Calls

theorem execOp_follows (callee : Callee σ) (noProgram : run.program = none) (noFunction : run.function = none)
    (room : st.length < run.stackCap) (k : Combine) (vs : List CTFEValue) (takes : k.action.Takes vs.length)
    (clear : k.Clear m run.env vs s) :
    Follows pc st (k.apply m run.env run.depth vs s)
      (execOp m run callee (k.inst vs.length) ⟨pc, vs.reverse ++ st, 0, s⟩) := by
  obtain ⟨action, node, start, stop⟩ := k
  cases action with
  | int | rune | float | bool | string | null =>
    obtain rfl := List.length_eq_zero_iff.mp takes
    exact pushResult_follows_of_eq rfl room
  | ident =>
    obtain rfl := List.length_eq_zero_iff.mp takes
    refine pushResult_follows_of_eq ?_ room
    rw [resolveSymbolName_chunk noProgram]
    exact clear
  | size bytes =>
    obtain rfl := List.length_eq_zero_iff.mp takes.1
    have small : ∀ b < 17, (UInt32.ofNat b).toInt32.toInt64 = Int64.ofNat b := by decide
    have same : (UInt32.ofNat bytes).toInt32.toInt64 = Int64.ofNat bytes := small bytes (Nat.lt_succ_of_le takes.2)
    refine pushResult_follows_of_eq ?_ room
    exact congrArg (fun i => EStateM.Result.ok (CTFEValue.int i) s) same
  | tuple => exact tupleMake_follows room _ rfl vs takes
  | call receiver spread => exact callByName_follows room noProgram noFunction _ rfl vs clear
  | slice flags => exact sliceMake_follows room _ rfl vs takes
  | cast target typeNode =>
    obtain ⟨input, rfl⟩ := length_one takes
    exact castInst_follows room noProgram _ rfl input clear
  | seqLen | cstr =>
    obtain ⟨base, rfl⟩ := length_one takes
    exact pushResult_follows _ room
  | unary op =>
    obtain ⟨input, rfl⟩ := length_one takes
    exact pushResult_follows_of_eq (congrArg (fun op => unaryValue op input s) op.ofCode_code) room
  | field =>
    obtain ⟨base, rfl⟩ := length_one takes
    refine pushResult_follows_of_eq ?_ room
    rw [resolveFieldName_chunk noProgram]
    exact clear base (List.mem_singleton.mpr rfl)
  | binary op | index =>
    obtain ⟨lhs, rhs, rfl⟩ := List.length_eq_two.mp takes
    exact pushResult_follows _ room

end Step

end HopHop
