import HopHop.CTFEEvalExpr

namespace HopHop

/-! One instruction of a lowered expression against the action of the node it was made from. -/

section Step

variable {σ : Type} {m : Machine σ} {run : ExecRun σ} {pc : Nat} {st vs : List CTFEValue} {s : σ} {k : Combine}
  {program : MirProgram} {t : MirBuilderTables} {hooks : CTFEHooks σ} {src : List UInt8}

theorem rawCallAuxFlags_pack (node flags : UInt32) : rawCallAuxFlags (rawCallAuxPack node flags) = flags &&& 1 := by
  rw [rawCallAuxFlags, rawCallAuxPack, ← UInt32.toNat_inj]
  rw [UInt32.toNat_and, UInt32.toNat_or, UInt32.toNat_and, Nat.and_or_distrib_right]
  have even : (node <<< 1).toNat &&& (1 : UInt32).toNat = 0 := by
    rw [UInt32.toNat_shiftLeft]
    show node.toNat <<< 1 % 2 ^ 32 &&& 1 = 0
    rw [Nat.and_one_is_mod, Nat.shiftLeft_eq]
    omega
  rw [even, Nat.zero_or, Nat.and_assoc, Nat.and_self]

/-- The program of a run has these tables. -/
structure RunsOver (run : ExecRun σ) (program : MirProgram) (t : MirBuilderTables) : Prop where
  isProgram : run.program = some program
  consts : program.consts = t.consts.val
  symbols : program.symbols = t.symbols.val.map MirSymbolEntry.symbol
  fields : program.fields = t.fields.val.map MirFieldEntry.name

/-- The environment of a run is the one of the evaluation. It resolves no names where the program has none. -/
def EnvOf (hooks : CTFEHooks σ) (src : List UInt8) (run : ExecRun σ) (ins : MirInst) : Prop :=
  run.env = hooks.env src ∨
    run.env = (hooks.env src).disableDynamicResolution ∧ ins.op ≠ .LOAD_IDENT ∧ ins.op ≠ .CALL

theorem symbolName (onProgram : RunsOver run program t) (ins : MirInst) {start stop flags target : UInt32} {kind : MirSymbolKind}
    (entry : t.symbols.val[ins.aux.toNat]? = some ⟨⟨start, stop, kind⟩, flags, target⟩) :
    resolveSymbolName run ins kind = (pure (start, stop) : Exec σ (UInt32 × UInt32)) := by
  have found : program.symbols[ins.aux.toNat]? = some ⟨start, stop, kind⟩ := by
    rw [onProgram.symbols, List.getElem?_map, entry]
    rfl
  have inside := (List.getElem?_eq_some_iff.mp found).1
  unfold resolveSymbolName
  simp only [onProgram.isProgram]
  rw [if_neg (Nat.not_le.mpr inside), readTable, found]
  simp only [pure_bind, ne_eq, not_true_eq_false, if_false]

theorem fieldName (onProgram : RunsOver run program t) {ins : MirInst} {start stop : UInt32} {a b c : UInt32}
    (entry : t.fields.val[ins.aux.toNat]? = some ⟨⟨start, stop⟩, a, b, c⟩) :
    resolveFieldName run ins = (pure (start, stop) : Exec σ (UInt32 × UInt32)) := by
  have found : program.fields[ins.aux.toNat]? = some ⟨start, stop⟩ := by
    rw [onProgram.fields, List.getElem?_map, entry]
    rfl
  have inside := (List.getElem?_eq_some_iff.mp found).1
  unfold resolveFieldName
  simp only [onProgram.isProgram]
  rw [if_neg (Nat.not_le.mpr inside), readTable, found]
  simp only [pure_bind]

theorem pushConst_follows (onProgram : RunsOver run program t) (room : st.length < run.stackCap) {ins : MirInst}
    {value : MirConst} (entry : t.consts.val[ins.aux.toNat]? = some value) :
    Follows pc st ((constToValue value).elim Exec.notConst pure s) (pushConst m run ins ⟨pc, st, 0, s⟩) := by
  have found : program.consts[ins.aux.toNat]? = some value := by rw [onProgram.consts, entry]
  have inside := (List.getElem?_eq_some_iff.mp found).1
  have read : onMem (readTable .consts program.consts ins.aux.toNat) (⟨pc, st, 0, s⟩ : Config σ) =
      .ok value ⟨pc, st, 0, s⟩ := by
    apply onMem_ok
    unfold readTable
    rw [found]
    rfl
  have parts : pushConst m run ins = (do
      let c ← onMem (readTable .consts program.consts ins.aux.toNat)
      pushResult m run ((constToValue c).elim Exec.notConst pure)) := by
    unfold pushConst
    simp only [onProgram.isProgram, Option.map_some, Option.getD_some, if_neg (Nat.not_le.mpr inside)]
  rw [parts, run_bind_ok read]
  exact pushResult_follows _ room

/-- A call of the host is refused, as nothing is installed for it. -/
theorem callHost_follows (env : run.env.hostCall = none) (ins : MirInst) (all : List CTFEValue) :
    Follows pc st (Exec.notConst (α := CTFEValue) s) (callHost m run ins ⟨pc, all, 0, s⟩) := by
  unfold callHost
  rw [env]
  exact ⟨all, rfl⟩

/-- Nothing is asked before the operands of a call are taken. -/
theorem callValue_env (site : CallSite) (start stop : UInt32) :
    callValue m (hooks.env src) site start stop vs = callResolved m (hooks.env src) site start stop vs := by
  unfold callValue callPre
  exact pure_bind _ _

/-- The answer to a call does not depend on where it stands. -/
theorem callResolved_site {site site' : CallSite} (sameStart : site.inst.start = site'.inst.start)
    (sameStop : site.inst.stop = site'.inst.stop) (start stop : UInt32) :
    callResolved m (hooks.env src) site start stop vs = callResolved m (hooks.env src) site' start stop vs := by
  unfold callResolved CTFEHooks.env
  cases hooks.resolveCall with
  | none => rfl
  | some resolve =>
    simp only [Option.map_some, allocArgs, sameStart, sameStop]

theorem call_follows (onProgram : RunsOver run program t) (room : st.length < run.stackCap) (isEnv : run.env = hooks.env src)
    {receiver spread : Bool} (action : k.action = .call receiver spread) (few : vs.length < 0x4000) {depth : Nat}
    {i flags target : UInt32} (entry : t.symbols.val[i.toNat]? = some ⟨⟨k.start, k.stop, .CALL⟩, flags, target⟩) :
    Follows pc st (k.apply m (hooks.env src) depth vs s)
      (callByName m run { k.inst vs.length with aux := i } ⟨pc, vs.reverse ++ st, 0, s⟩) := by
  obtain ⟨_, node, start, stop⟩ := k
  obtain rfl := action
  change Follows pc st (callValue m (hooks.env src) _ start stop vs s) _
  have count : callArgCountFromTok (Combine.inst ⟨.call receiver spread, node, start, stop⟩ vs.length).tok = vs.length :=
    callTok_count vs.length spread few
  have name := symbolName onProgram { Combine.inst ⟨.call receiver spread, node, start, stop⟩ vs.length with aux := i } entry
  have notAsked : callPre run.env (⟨run.program, run.function,
      { Combine.inst ⟨.call receiver spread, node, start, stop⟩ vs.length with aux := i }⟩ : CallSite) start stop =
      (pure none : Exec σ (Option CTFEValue)) := by
    rw [isEnv]
    rfl
  rw [callValue_env]
  unfold callByName
  simp only [name, count]
  rw [run_bind_ok (x := onMem (pure (start, stop))) (a := (start, stop)) (s := ⟨pc, vs.reverse ++ st, 0, s⟩) rfl]
  simp only [notAsked]
  rw [run_bind_ok (x := onMem (pure none)) (a := none) (s := ⟨pc, vs.reverse ++ st, 0, s⟩) rfl]
  cases resolve : hooks.resolveCall with
  | none =>
    have absent : (hooks.env src).resolveCall = none := by
      unfold CTFEHooks.env
      rw [resolve]
      rfl
    unfold callResolved
    rw [isEnv, absent]
    exact ⟨vs.reverse ++ st, rfl⟩
  | some call =>
    have present : run.env.resolveCall.isNone = false := by
      rw [isEnv]
      unfold CTFEHooks.env
      rw [resolve]
      rfl
    simp only [present, Bool.false_eq_true, if_false]
    rw [run_bind_ok (popArgs_reverse vs), isEnv]
    refine pushResult_follows_of_eq ?_ room
    exact congrFun (callResolved_site (by rfl) (by rfl) start stop) s

theorem cast_follows (room : st.length < run.stackCap) (uninstalled : run.env.coerceValueForType = none)
    {target : CastTarget} {typeNode : UInt32} (action : k.action = .cast target typeNode) (input : CTFEValue)
    {i : UInt32} :
    Follows pc st (castValue target input s) (castInst m run { k.inst 1 with aux := i } ⟨pc, input :: st, 0, s⟩) := by
  have code : castTargetOfCode (k.inst 1).tok = target := by
    unfold Combine.inst
    rw [action]
    exact target.ofCode_code
  have kept (out : CTFEValue) : coerceValueForType run.env run.program i out = (pure out : Exec σ CTFEValue) := by
    unfold coerceValueForType tryCoerce
    rw [uninstalled]
    split <;> rfl
  unfold castInst
  rw [run_bind_ok (x := pop) (a := input) (s := ⟨pc, st, 0, s⟩) rfl]
  refine pushResult_follows_of_eq ?_ room
  simp only [code, kept, bind_pure]

theorem literal_takes {n : Nat} (literal : (k.inst n).op.isLiteral = true) (takes : k.action.Takes n) : n = 0 := by
  obtain ⟨action, node, start, stop⟩ := k
  cases action with
  | int | rune | float | bool | string | null => exact takes
  | size bytes => exact takes.1
  | _ => cases literal

/-- Only names and calls ask for their resolution. -/
theorem Combine.apply_static {env : ExecEnv σ} {depth : Nat} (names : (k.inst vs.length).op ≠ .LOAD_IDENT)
    (calls : (k.inst vs.length).op ≠ .CALL) :
    k.apply m env.disableDynamicResolution depth vs = k.apply m env depth vs := by
  obtain ⟨action, node, start, stop⟩ := k
  cases action with
  | ident => exact absurd rfl names
  | call receiver spread => exact absurd rfl calls
  | _ => rcases vs with _ | ⟨a, _ | ⟨b, _ | ⟨c, rest⟩⟩⟩ <;> rfl

/-- An action that needs no entry of a table is done as it is without a program. -/
theorem same_follows (callee : Callee σ) (room : st.length < run.stackCap)
    (isEnv : run.env = hooks.env src ∨ run.env = (hooks.env src).disableDynamicResolution)
    (takes : k.action.Takes vs.length)
    (names : (k.inst vs.length).op ≠ .LOAD_IDENT ∧ (k.inst vs.length).op ≠ .STORE_IDENT ∧ (k.inst vs.length).op ≠ .CALL)
    (types : (k.inst vs.length).op ≠ .CAST)
    (fields : (k.inst vs.length).op ≠ .AGG_GET ∧ (k.inst vs.length).op ≠ .AGG_ADDR) :
    Follows pc st (Combine.applyRead m (hooks.env src) run.depth (k, none) vs s)
      (execOp m run callee (k.inst vs.length) ⟨pc, vs.reverse ++ st, 0, s⟩) := by
  have plain (clear : k.Clear m run.env vs s) : Follows pc st (k.apply m run.env run.depth vs s)
      (execOp m { run with program := none, function := none } callee (k.inst vs.length)
        ⟨pc, vs.reverse ++ st, 0, s⟩) :=
    @execOp_follows σ m { run with program := none, function := none } pc st s callee rfl rfl room k vs takes clear
  have sameEnv : k.apply m run.env run.depth vs = k.apply m (hooks.env src) run.depth vs := by
    rcases isEnv with isEnv | isEnv <;> rw [isEnv]
    exact Combine.apply_static names.1 names.2.2
  rw [sameEnv] at plain
  obtain ⟨action, node, start, stop⟩ := k
  cases action with
  | ident => exact absurd rfl names.1
  | call receiver spread => exact absurd rfl names.2.2
  | cast target typeNode => exact absurd rfl types
  | field => exact absurd rfl fields.1
  | _ => exact plain trivial

theorem callsHost_of {n : Nat} {target : UInt32} (op : (k.inst n).op = .CALL)
    (isHost : hostTargetOf src (k.inst n).start (k.inst n).stop = some target)
    (noReceiver : rawCallAuxFlags (k.inst n).aux = 0) : k.callsHost src = true := by
  obtain ⟨action, node, start, stop⟩ := k
  cases action with
  | call receiver spread =>
    have flag : (if receiver then symbolFlagCallReceiverArg0 else 0) &&& 1 = 0 :=
      (rawCallAuxFlags_pack node _).symm.trans noReceiver
    have named : (hostTargetOf src start stop).isSome = true := Option.isSome_of_eq_some isHost
    cases receiver with
    | true => exact absurd flag (by decide)
    | false => simp only [Combine.callsHost, Bool.not_false, named, and_self, decide_true]
  | _ => cases op

theorem not_callsHost_of {n : Nat} (op : (k.inst n).op = .CALL)
    (noHost : hostTargetOf src (k.inst n).start (k.inst n).stop = none ∨ rawCallAuxFlags (k.inst n).aux ≠ 0) :
    k.callsHost src = false := by
  obtain ⟨action, node, start, stop⟩ := k
  cases action with
  | call receiver spread =>
    cases receiver with
    | true => rfl
    | false =>
      have none : hostTargetOf src start stop = none := noHost.resolve_right fun flag =>
        flag (rawCallAuxFlags_pack node 0)
      simp only [Combine.callsHost, none, Option.isSome_none, Bool.false_eq_true, and_false, decide_false]
  | _ => cases op

/-- An instruction of a lowered expression does what the node says. -/
theorem lowered_follows (callee : Callee σ) (onProgram : RunsOver run program t) (room : st.length < run.stackCap)
    {given : Option MirConst} {ins' : MirInst} (isEnv : EnvOf hooks src run ins')
    (lowered : LoweredTo src t (k.inst vs.length) given ins') (takes : k.action.Takes vs.length)
    (few : ∀ receiver spread, k.action = .call receiver spread → vs.length < 0x4000) :
    Follows pc st (Combine.applyRead m (hooks.env src) run.depth (k, given) vs s)
      (execOp m run callee ins' ⟨pc, vs.reverse ++ st, 0, s⟩) := by
  cases lowered with
  | const literal entry =>
    obtain rfl := List.length_eq_zero_iff.mp (literal_takes literal takes)
    exact pushConst_follows onProgram room entry
  | @ident i op entry =>
    obtain ⟨action, node, start, stop⟩ := k
    cases action with
    | ident =>
      obtain rfl := List.length_eq_zero_iff.mp takes
      refine pushResult_follows_of_eq ?_ room
      rw [symbolName onProgram _ entry]
      have env : run.env = hooks.env src := isEnv.resolve_right fun both => both.2.1 rfl
      rw [env]
      rfl
    | _ => rcases op with op | op <;> cases op
  | @call i op noHost entry =>
    have env : run.env = hooks.env src := isEnv.resolve_right fun both => both.2.2 op
    have applied : Combine.applyRead m (hooks.env src) run.depth (k, none) vs = k.apply m (hooks.env src) run.depth vs := by
      rw [Combine.applyRead]
      exact if_neg (by rw [show (hooks.env src).src = src from rfl, not_callsHost_of op noHost]; exact Bool.false_ne_true)
    rw [applied]
    obtain ⟨action, node, start, stop⟩ := k
    cases action with
    | call receiver spread => exact call_follows onProgram room env rfl (few receiver spread rfl) entry
    | _ => cases op
  | @host i target op isHost noReceiver entry =>
    have applied : Combine.applyRead m (hooks.env src) run.depth (k, none) vs = Exec.notConst := by
      rw [Combine.applyRead]
      exact if_pos (callsHost_of op isHost noReceiver)
    rw [applied]
    refine callHost_follows ?_ _ _
    rcases isEnv with env | ⟨env, _⟩ <;> rw [env] <;> rfl
  | @cast i ty op entry node =>
    obtain ⟨action, node, start, stop⟩ := k
    cases action with
    | cast target typeNode =>
      obtain ⟨input, rfl⟩ := length_one takes
      refine cast_follows room ?_ rfl input
      rcases isEnv with env | ⟨env, _⟩ <;> rw [env] <;> rfl
    | _ => cases op
  | @field i op entry =>
    obtain ⟨action, node, start, stop⟩ := k
    cases action with
    | field =>
      obtain ⟨base, rfl⟩ := length_one takes
      refine pushResult_follows_of_eq ?_ room
      rw [fieldName onProgram entry]
      rcases isEnv with env | ⟨env, _⟩ <;> rw [env] <;> rfl
    | _ => rcases op with op | op <;> cases op
  | same names types fields => exact same_follows callee room (isEnv.imp_right And.left) takes names types fields

end Step

end HopHop
