import HopHop.MirSafe

namespace HopHop

/-! Evaluation of a validated program never leaves its tables. -/

section

variable {σ : Type} (m : Machine σ)

/-- The frame of the function is small enough for its size in bytes to be a 32-bit number. -/
def MirFunction.FrameFits (fn : MirFunction) : Prop := valueSize * fn.localCount.toNat < UInt32.size

instance (fn : MirFunction) : Decidable fn.FrameFits := inferInstanceAs (Decidable (_ < _))

theorem valuesIn_eq {count : Nat} (small : valueSize * count < UInt32.size) : valuesIn count = count := by
  rw [valuesIn, Nat.mod_eq_of_lt small]
  exact Nat.mul_div_cancel_left count (by decide)

/-- What validation has checked of a function. -/
structure MirFunction.Valid (program : MirProgram) (fn : MirFunction) : Prop where
  localStart : fn.localStart.toNat ≤ program.locals.length
  localCount : fn.localCount.toNat ≤ program.locals.length - fn.localStart.toNat
  params : fn.paramCount.toNat ≤ fn.localCount.toNat
  types : ∀ l ∈ fn.localMeta program, l.typeRef = noTypeRef ∨ l.typeRef.toNat < program.types.length

theorem none_of_ite {α : Type} {c : Prop} [Decidable c] {a : α} {rest : Option α}
    (accepted : (if c then some a else rest) = none) : ¬ c ∧ rest = none := by
  by_cases holds : c
  · rw [if_pos holds] at accepted
    cases accepted
  · rw [if_neg holds] at accepted
    exact ⟨holds, accepted⟩

theorem MirFunction.Valid.of_validate {program : MirProgram} {fn : MirFunction}
    (accepted : validateFunction program fn = none) : fn.Valid program := by
  unfold validateFunction at accepted
  obtain ⟨_, accepted⟩ := none_of_ite accepted
  obtain ⟨ranges, accepted⟩ := none_of_ite accepted
  obtain ⟨_, accepted⟩ := none_of_ite accepted
  obtain ⟨typed, _⟩ := none_of_ite accepted
  have order : ¬ fn.localCount < fn.paramCount := fun below => ranges (Or.inr (Or.inr below))
  refine ⟨by omega, by omega, by rw [UInt32.lt_iff_toNat_lt] at order; omega, fun l member => ?_⟩
  by_contra bad
  rw [not_or, Nat.not_lt] at bad
  exact typed (List.any_eq_true.mpr ⟨l, member, decide_eq_true bad⟩)

theorem MirFunction.Valid.of_program {program : MirProgram} (accepted : validateProgram program = none)
    {fn : MirFunction} (member : fn ∈ program.funcs) : fn.Valid program :=
  .of_validate (List.findSome?_eq_none_iff.mp accepted fn member)

theorem readTable_ok {α : Type} {table : Table} {entries : List α} {i : Nat} {s s' : σ} {entry : α}
    (done : readTable table entries i s = .ok entry s') : entries[i]? = some entry := by
  unfold readTable at done
  cases found : entries[i]? with
  | none =>
    rw [found] at done
    cases done
  | some a =>
    rw [found] at done
    cases done
    rfl

theorem clearLocals_inBounds (run : ExecRun σ) (fits : run.Fits) (slot count : Nat)
    (inside : slot + count ≤ run.localCount) : InBounds (clearLocals m run slot count) := by
  induction count generalizing slot with
  | zero => exact .pure _
  | succ count ih =>
    exact .seq (storeLocal_inBounds m run fits (by omega) _) fun _ => ih (slot + 1) (by omega)

theorem bindArgs_inBounds (run : ExecRun σ) (fits : run.Fits) (slot : Nat) (args : List CTFEValue)
    (inside : slot + args.length ≤ run.localCount) : InBounds (bindArgs m run slot args) := by
  induction args generalizing slot with
  | nil => exact .pure _
  | cons arg rest ih =>
    rw [List.length_cons] at inside
    have store := storeLocal_inBounds m run fits (show slot < run.localCount by omega)
    have later := ih (slot + 1) (by omega)
    refine .seq (store arg) fun _ => .seq (localTypeRef_inBounds run slot) fun typeRef => ?_
    refine .ite (fun _ => later) fun _ => ?_
    refine .seq (loadLocal_inBounds m run fits (by omega)) fun v => ?_
    refine .seq (tryCoerce_inBounds run.env run.program typeRef v) fun coerced => ?_
    cases coerced with
    | none => exact .pure _
    | some v => exact .seq (store v) fun _ => later

theorem allocValues_inBounds (count : Nat) : InBounds (allocValues m count) :=
  (allocOr_plain m _ _ _).inBounds

theorem allocLocals_inBounds (count : Nat) : InBounds (allocLocals m count) :=
  .ite (fun _ => .pure _) fun _ => allocValues_inBounds m count

theorem bindAll_inBounds (run : ExecRun σ) (fits : run.Fits) (args : List CTFEValue) :
    InBounds (bindAll m run args) :=
  .ite (fun room => bindArgs_inBounds m run fits 0 args (by omega)) fun _ => .pure _

section Init

variable {code : List MirInst} {program : Option MirProgram} {function : Option MirFunction}
  {localCount : Nat} {args : List CTFEValue} {env : ExecEnv σ} {depth : Nat}

theorem initRun_fits (small : valueSize * localCount < UInt32.size)
    (params : ∀ fn, function = some fn → fn.paramCount.toNat ≤ localCount) (stackCap : Nat) (locals : Ptr) :
    ExecRun.Fits ⟨code, program, function, env, stackCap, localCount, locals, valuesIn localCount, depth⟩ :=
  ⟨Nat.le_of_eq (valuesIn_eq small).symm, params⟩

theorem initRun_inBounds (small : valueSize * localCount < UInt32.size)
    (params : ∀ fn, function = some fn → fn.paramCount.toNat ≤ localCount) :
    InBounds (initRun m code program function localCount args env depth) := by
  refine .seq (allocValues_inBounds m _) fun _ => .seq (allocLocals_inBounds m _) fun locals => ?_
  have fits : ∀ stackCap,
      ExecRun.Fits ⟨code, program, function, env, stackCap, localCount, locals, valuesIn localCount, depth⟩ :=
    fun stackCap => initRun_fits small params stackCap locals
  refine .seq (clearLocals_inBounds m _ (fits _) 0 localCount (Nat.le_of_eq (Nat.zero_add _))) fun _ => ?_
  exact .seq (bindAll_inBounds m _ (fits _) args) fun _ => .pure _

theorem initRun_ok (small : valueSize * localCount < UInt32.size)
    (params : ∀ fn, function = some fn → fn.paramCount.toNat ≤ localCount) {s s' : σ} {run : ExecRun σ}
    (built : initRun m code program function localCount args env depth s = .ok run s') :
    run.Fits ∧ run.localCount = localCount := by
  obtain ⟨_, _, _, built⟩ := bind_ok built
  obtain ⟨locals, _, _, built⟩ := bind_ok built
  obtain ⟨_, _, _, built⟩ := bind_ok built
  obtain ⟨_, _, _, built⟩ := bind_ok built
  cases built
  exact ⟨initRun_fits small params _ locals, rfl⟩

end Init

section Call

variable {program : MirProgram} {fn : MirFunction}

theorem MirFunction.FrameFits.params (valid : fn.Valid program) (frame : fn.FrameFits) :
    valueSize * fn.paramCount.toNat < UInt32.size :=
  Nat.lt_of_le_of_lt (Nat.mul_le_mul_left valueSize valid.params) frame

/-- The hidden closure argument has its place behind the arguments of the call. -/
theorem hiddenArgument_inBounds (valid : fn.Valid program) (frame : fn.FrameFits) (functionIndex : UInt32)
    {args : List CTFEValue} (few : args.length + 1 < UInt32.size) :
    InBounds (hiddenArgument m fn functionIndex args) := by
  refine .ite (fun entry => ?_) fun _ => .pure _
  have count : (UInt32.ofNat args.length + 1).toNat = args.length + 1 := by
    rw [UInt32.toNat_add, UInt32.toNat_ofNat', Nat.mod_eq_of_lt (Nat.lt_of_succ_lt few)]
    exact Nat.mod_eq_of_lt few
  have room : valuesIn (args.length + 1) = args.length + 1 := by
    apply valuesIn_eq
    rw [← count, entry.2.1]
    exact frame.params valid
  refine .seq (allocValues_inBounds m _) fun _ => ?_
  rw [count, room, if_pos (Nat.lt_succ_self _)]
  exact .pure _

/-- The local that receives the packed arguments is the last parameter, and it has metadata. -/
theorem variadicLocal_index (valid : fn.Valid program) (some : fn.paramCount ≠ 0) :
    (fn.localStart + fn.paramCount - 1).toNat = fn.localStart.toNat + (fn.paramCount.toNat - 1) ∧
      fn.localStart.toNat + (fn.paramCount.toNat - 1) < program.locals.length ∧
      fn.paramCount.toNat - 1 < fn.localCount.toNat := by
  have positive : 0 < fn.paramCount.toNat := Nat.pos_of_ne_zero fun zero => some (UInt32.toNat_inj.mp zero)
  have short : program.locals.length < UInt32.size := program.lengths _ (by simp)
  have start := valid.localStart
  have count := valid.localCount
  have params := valid.params
  have size : UInt32.size = 2 ^ 32 := rfl
  have sum : (fn.localStart + fn.paramCount).toNat = fn.localStart.toNat + fn.paramCount.toNat := by
    rw [UInt32.toNat_add, Nat.mod_eq_of_lt (by omega)]
  have one : 1 ≤ fn.localStart + fn.paramCount := by
    rw [UInt32.le_iff_toNat_le, sum, UInt32.toNat_one]
    omega
  refine ⟨?_, by omega, by omega⟩
  rw [UInt32.toNat_sub_of_le _ _ one, sum, UInt32.toNat_one]
  omega

theorem packArguments_inBounds (valid : fn.Valid program) (env : ExecEnv σ) (callFlags : UInt16)
    (args : List CTFEValue) : InBounds (packArguments program env fn callFlags args) := by
  refine .ite (fun _ => ?_) fun _ => .ite (fun _ => notConst_plain.inBounds) fun _ => .pure _
  cases env.makeVariadicPack with
  | none => exact notConst_plain.inBounds
  | some makePack =>
    refine .ite (fun _ => notConst_plain.inBounds) fun enough => ?_
    obtain ⟨index, inside, slot⟩ := variadicLocal_index valid fun zero => enough (Or.inr zero)
    rw [index]
    refine .bind (readTable_inBounds inside) fun s variadicLocal s' read => ?_
    have member : variadicLocal ∈ fn.localMeta program := by
      refine List.mem_of_getElem? (i := fn.paramCount.toNat - 1) ?_
      rw [MirFunction.localMeta, List.getElem?_take_of_lt slot, List.getElem?_drop]
      exact readTable_ok read
    have typed : InBounds (packType program variadicLocal : Exec σ _) := by
      refine .ite (fun _ => .pure _) fun named => .map (readTable_inBounds ?_) _
      exact (valid.types variadicLocal member).resolve_left named
    exact .seq typed fun ty => .seq (ask_plain _).inBounds fun pack => .pure _

theorem packArguments_ok {env : ExecEnv σ} {callFlags : UInt16} {args : List CTFEValue} {s s' : σ}
    {packed : List CTFEValue × Option CTFEValue} {pack : CTFEValue}
    (done : packArguments program env fn callFlags args s = .ok packed s') (has : packed.2 = some pack) :
    fn.paramCount ≠ 0 := by
  unfold packArguments at done
  by_cases variadic : fn.isVariadic = true
  · rw [if_pos variadic] at done
    cases hook : env.makeVariadicPack with
    | none =>
      rw [hook] at done
      cases done
    | some makePack =>
      rw [hook] at done
      dsimp only at done
      by_cases short : args.length < fn.paramCount.toNat - 1 ∨ fn.paramCount = 0
      · rw [if_pos short] at done
        cases done
      · exact fun zero => short (Or.inr zero)
  · rw [if_neg variadic] at done
    by_cases count : args.length ≠ fn.paramCount.toNat
    · rw [if_pos count] at done
      cases done
    · rw [if_neg count] at done
      cases done
      cases has

theorem finallyDo_inBounds {α : Type} {body : Exec σ α} (inner : InBounds body) (undo : σ → σ) :
    InBounds (finallyDo body undo) := by
  intro mem stop mem' stops
  unfold finallyDo at stops
  split at stops
  · cases stops
  · rename_i stop mid fails
    cases stops
    exact inner _ _ _ fails

theorem runFrame_inBounds {callee : ExecEnv σ → Callee σ} (calls : ∀ env, CalleeInBounds (callee env))
    (valid : fn.Valid program) (frame : fn.FrameFits) (env : ExecEnv σ) (args : List CTFEValue)
    {pack : Option CTFEValue} (packed : ∀ v, pack = some v → fn.paramCount ≠ 0) (top : Bool) (fuel : Nat) :
    InBounds (runFrame m program callee env fn args pack top fuel) := by
  have params : ∀ g, some fn = some g → g.paramCount.toNat ≤ fn.localCount.toNat := by
    intro g same
    cases same
    exact valid.params
  refine .seq (.ite (fun _ => .modify _) fun _ => .pure _) fun _ => ?_
  refine .bind (initRun_inBounds m frame params) fun s run s' built => ?_
  obtain ⟨fits, count⟩ := initRun_ok m frame params built
  have stored : InBounds (storePack m run fn pack) := by
    cases pack with
    | none => exact .pure _
    | some v =>
      refine storeLocal_inBounds m run fits ?_ v
      rw [count]
      exact (variadicLocal_index valid (packed v rfl)).2.2
  refine .seq stored fun _ => .seq (askStatus_plain _).inBounds fun _ => ?_
  exact finallyDo_inBounds (runLoop_inBounds m run (calls env) fits fuel) _

theorem callFunction_inBounds {callee : ExecEnv σ → Callee σ} (calls : ∀ env, CalleeInBounds (callee env))
    (valid : fn.Valid program) (frame : fn.FrameFits) (env : ExecEnv σ) (functionIndex : UInt32)
    {args : List CTFEValue} (few : args.length + 1 < UInt32.size) (callFlags : UInt16) (top : Bool) (fuel : Nat) :
    InBounds (callFunction m program callee env fn functionIndex args callFlags top fuel) := by
  refine .seq (hiddenArgument_inBounds m valid frame functionIndex few) fun args => ?_
  refine .bind (packArguments_inBounds valid env callFlags args) fun s packed s' packs => ?_
  have source : InBounds (functionSource program env fn) :=
    .ite (fun inside => readTable_inBounds inside) fun _ => .pure _
  refine .seq source fun src => .seq (askStatus_plain _).inBounds fun _ => finallyDo_inBounds ?_ _
  exact runFrame_inBounds m calls valid frame _ packed.1 (fun v has => packArguments_ok packs has) top fuel

end Call

variable (program : MirProgram)

theorem failWith_inBounds (diag : Diag) : InBounds (failWith m diag) :=
  .seq (.modify _) fun _ => error_plain.inBounds

/-- A call at any depth stays inside the tables: the fuel counts how deep calls still may nest. -/
theorem evalFunctionInternal_inBounds (accepted : validateProgram program = none)
    (frames : ∀ fn ∈ program.funcs, fn.FrameFits) (fuel : Nat) (top : Bool) (env : ExecEnv σ) :
    CalleeInBounds (evalFunctionInternal m program fuel top env) := by
  induction fuel generalizing top env with
  | zero => exact fun _ _ _ _ => .throw inTables_outOfFuel
  | succ fuel ih =>
    intro functionIndex args callFlags few
    unfold evalFunctionInternal
    refine .ite (fun _ => failWith_inBounds m _) fun known => ?_
    have checked : (if top then validateProgram program else none) = none := by
      rw [accepted, ite_self]
    rw [checked]
    refine .bind (readTable_inBounds (Nat.not_le.mp known)) fun s fn s' read => ?_
    have member : fn ∈ program.funcs := List.mem_of_getElem? (readTable_ok read)
    refine .ite (fun _ => failWith_inBounds m _) fun _ => .ite (fun _ => notConst_plain.inBounds) fun _ => ?_
    exact callFunction_inBounds m (ih false) (.of_program accepted member) (frames fn member) env functionIndex few
      callFlags top fuel

end

/-- What a caller of `H2MirEvalFunction` sees of a result: the return code and whether the value is constant. -/
def RunResult.observe {σ : Type} : RunResult σ → Option (Int × Bool)
  | .ok _ _ => some (0, true)
  | .error stop _ => stop.returnCode.map fun rc => (rc, false)

/-- In every run, of any length, every table is read inside its bounds; and a run that finds its operand stack
empty ends there, with return code 0 and no constant. -/
def StaysInTables {σ : Type} (m : Machine σ) (program : MirProgram) (env : ExecEnv σ) (functionIndex : UInt32)
    (args : List CTFEValue) : Prop :=
  ∀ fuel mem,
    (∀ table index after,
      evalFunction m program env functionIndex args fuel mem ≠ .error (.outOfBounds table index) after) ∧
    (∀ after, evalFunction m program env functionIndex args fuel mem = .error .popEmpty after →
      RunResult.observe (evalFunction m program env functionIndex args fuel mem) = some (0, false))

/-- A function that returns its only argument. -/
def identityProgram : MirProgram where
  insts := [⟨.LOCAL_LOAD, 0, 0, 0, 0⟩, ⟨.RETURN, 0, 0, 0, 0⟩]
  consts := []
  sources := [[]]
  funcs := [⟨0, 2, 0, 0, 1, 1, noTypeRef, 0, 0, 0, 0⟩]
  locals := [⟨noTypeRef, 1, 0, 0⟩]
  fields := []
  types := []
  hosts := []
  symbols := []
  lengths := by decide

/-- The least number of locals whose size in bytes passes 32 bits, by less than one local. -/
def wideLocalCount : Nat := 48806447

/-- A function without parameters that returns at once, with many locals. -/
def wideFunction : MirFunction := ⟨0, 1, 0, 0, 48806447, 0, noTypeRef, 0, 0, 0, 0⟩

def wideProgram : MirProgram where
  insts := [⟨.RETURN_VOID, 0, 0, 0, 0⟩]
  consts := []
  sources := [[]]
  funcs := [wideFunction]
  locals := List.replicate wideLocalCount ⟨noTypeRef, 0, 0, 0⟩
  fields := []
  types := []
  hosts := []
  symbols := []
  lengths := by
    rw [List.length_replicate]
    decide

theorem wideProgram_accepted : validateProgram wideProgram = none := by
  have length : wideProgram.locals.length = wideLocalCount := List.length_replicate
  have untyped : ¬ (wideFunction.localMeta wideProgram).any
      fun l => l.typeRef ≠ noTypeRef ∧ wideProgram.types.length ≤ l.typeRef.toNat := by
    rw [List.any_eq_true]
    rintro ⟨l, member, bad⟩
    have plain := List.eq_of_mem_replicate (List.mem_of_mem_drop (List.mem_of_mem_take member))
    rw [plain] at bad
    exact absurd bad (by decide)
  have function : validateFunction wideProgram wideFunction = none := by
    unfold validateFunction
    rw [if_neg (by decide), if_neg (by rw [length]; decide), if_neg (by decide), if_neg untyped]
    rfl
  exact List.findSome?_eq_none_iff.mpr fun fn member => List.mem_singleton.mp member ▸ function

/-- A block with room for no local at all: the first slot to be cleared lies outside it. -/
theorem clearLocals_noRoom {σ : Type} (m : Machine σ) (run : ExecRun σ) (none : run.localsAllocated = 0) (count : Nat)
    (mem : σ) : clearLocals m run 0 (count + 1) mem = .error (.outOfBounds .locals 0) mem := by
  have missing : localPtr run 0 mem = .error (.outOfBounds .locals 0) mem := by
    rw [localPtr, if_neg (by omega)]
    rfl
  have stored : storeLocal m run 0 .invalid mem = .error (.outOfBounds .locals 0) mem := run_bind_error missing
  exact run_bind_error stored

theorem initRun_wide (code : List MirInst) (program : Option MirProgram) (fn : Option MirFunction) (env : ExecEnv Unit)
    (depth : Nat) :
    initRun Machine.giving code program fn wideLocalCount [] env depth () = .error (.outOfBounds .locals 0) () := by
  have noRoom : valuesIn wideLocalCount = 0 := by decide
  have some : wideLocalCount = 48806446 + 1 := rfl
  refine (run_bind_ok (a := 8) (s := ()) rfl).trans ((run_bind_ok (a := 8) (s := ()) rfl).trans ?_)
  refine run_bind_error ?_
  rw [some]
  exact clearLocals_noRoom _ _ noRoom _ _

end HopHop
