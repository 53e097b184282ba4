import HopHop.MirBounds

namespace HopHop

/-! Every table access of an evaluation lies inside its table. -/

section

variable {σ : Type} (m : Machine σ) (run : ExecRun σ)

/-- Whatever function is called, with fewer arguments than a 32-bit count can hold, its evaluation stays
inside the tables. -/
def CalleeInBounds (callee : Callee σ) : Prop :=
  ∀ functionIndex args callFlags, args.length + 1 < UInt32.size → InBounds (callee functionIndex args callFlags)

theorem callArgCountFromTok_lt (tok : UInt16) : callArgCountFromTok tok < 2 ^ 16 := UInt16.toNat_lt _

theorem popArgs_length {count : Nat} {c c' : Config σ} {args : List CTFEValue}
    (taken : popArgs count c = .ok args c') : args.length = count := by
  unfold popArgs at taken
  split at taken
  · cases taken
  · cases taken
    rw [List.length_reverse, List.length_take]
    omega

theorem ok_of_onMem {α : Type} {x : Exec σ α} {c c' : Config σ} {a : α} (done : onMem x c = .ok a c') :
    x c.mem = .ok a c'.mem := by
  unfold onMem at done
  split at done
  · rename_i ok
    cases done
    exact ok
  · cases done

theorem dropReceiver_length {ins : MirInst} {args kept : List CTFEValue} {s s' : σ}
    (done : dropReceiver ins args s = .ok kept s') : kept.length ≤ args.length := by
  unfold dropReceiver at done
  split at done
  · cases args with
    | nil => cases done
    | cons a rest =>
      cases done
      exact Nat.le_succ _
  · cases done
    exact Nat.le_refl _

theorem adjustArgs_length {ins : MirInst} {functionIndex : UInt32} {args adjusted : List CTFEValue} {s s' : σ}
    (done : adjustArgs run ins functionIndex args s = .ok adjusted s') : adjusted.length = args.length := by
  unfold adjustArgs at done
  cases hook : run.env.adjustCallArgs with
  | none =>
    rw [hook] at done
    cases done
    rfl
  | some adjust =>
    rw [hook] at done
    obtain ⟨answer, mid, _, rest⟩ := bind_ok done
    by_cases failed : answer.1 < 0
    · rw [if_pos failed] at rest
      cases rest
    · rw [if_neg failed] at rest
      by_cases refused : 0 < answer.1
      · rw [if_pos refused] at rest
        cases rest
      · rw [if_neg refused] at rest
        cases rest
        exact List.length_mapIdx

theorem callFn_inBounds {callee : Callee σ} (calls : CalleeInBounds callee) (ins : MirInst) :
    InBounds (callFn m run callee ins) := by
  unfold callFn
  refine .ite (fun _ => by grind) fun _ => ?_
  refine .bind (popArgs_inBounds _) fun c args c' taken => .seq (by grind) fun _ => .seq (by grind) fun _ => ?_
  refine .bind (by grind) fun c adjusted c' adjusts => .bind (by grind) fun c kept c' drops => ?_
  have popped := popArgs_length taken
  have same := adjustArgs_length run (ok_of_onMem adjusts)
  have fewer := dropReceiver_length (ok_of_onMem drops)
  have bound := callArgCountFromTok_lt ins.tok
  have size : UInt32.size = 2 ^ 32 := rfl
  exact pushResult_inBounds m run (calls ins.aux kept ins.tok (by omega))

@[grind ←] theorem entryArguments_inBounds (ins : MirInst) (fn : MirFunction) (functionIndex : UInt32) (data : Ptr)
    (args : List CTFEValue) : InBounds (entryArguments m ins fn functionIndex data args) := by
  unfold entryArguments
  grind

theorem entryArguments_length {ins : MirInst} {fn : MirFunction} {functionIndex : UInt32} {data : Ptr}
    {args entry : List CTFEValue} {s s' : σ}
    (done : entryArguments m ins fn functionIndex data args s = .ok entry s') : entry.length ≤ args.length + 1 := by
  unfold entryArguments at done
  split at done
  · obtain ⟨_, mid, _, rest⟩ := bind_ok done
    cases rest
    rw [List.length_append]
    exact Nat.le_refl _
  · cases done
    exact Nat.le_succ _

theorem callFunctionValue_inBounds {callee : Callee σ} (calls : CalleeInBounds callee) (program : MirProgram)
    (ins : MirInst) (target : CTFEValue) {args : List CTFEValue} (few : args.length < 2 ^ 16) :
    InBounds (callFunctionValue m run callee program ins target args) := by
  unfold callFunctionValue
  split
  · exact (refuse_plain run.env ins _).inBounds
  · rename_i fnIndex data _
    refine .ite (fun _ => (refuse_plain run.env ins _).inBounds) fun inside => ?_
    refine .seq (readTable_inBounds (Nat.not_le.mp inside)) fun fn => ?_
    refine .bind (entryArguments_inBounds m ins fn fnIndex data args) fun s entry s' enters => ?_
    refine .bind (adjustArgs_inBounds run ins fnIndex entry) fun s adjusted s' adjusts => ?_
    have more := entryArguments_length m enters
    have same := adjustArgs_length run adjusts
    have size : UInt32.size = 2 ^ 32 := rfl
    exact calls fnIndex adjusted ins.tok (by omega)

theorem askIndirect_inBounds (ins : MirInst) (target : CTFEValue) (args : List CTFEValue) :
    InBounds (askIndirect run ins target args) := by
  unfold askIndirect
  grind

theorem callIndirect_inBounds {callee : Callee σ} (calls : CalleeInBounds callee) (ins : MirInst) :
    InBounds (callIndirect m run callee ins) := by
  unfold callIndirect
  split
  · exact onMem_inBounds (refuse_plain run.env ins _).inBounds
  · rename_i program _
    refine .seq .get fun c => .ite (fun _ => by grind) fun _ => ?_
    refine .bind (popArgs_inBounds _) fun c args c' taken => .seq (by grind) fun _ => .seq pop_inBounds fun target => ?_
    refine pushResult_inBounds m run (.seq (askIndirect_inBounds run ins target args) fun answered => ?_)
    cases answered with
    | some v => exact .pure v
    | none =>
      have few : args.length < 2 ^ 16 := by
        rw [popArgs_length taken]
        exact callArgCountFromTok_lt ins.tok
      exact callFunctionValue_inBounds m run calls program ins target few

/-- One instruction stays inside the tables: by the check it makes itself, by the shape of the frame, or
because the function it calls does. -/
theorem execOp_inBounds {callee : Callee σ} (calls : CalleeInBounds callee) (fits : run.Fits) (ins : MirInst) :
    InBounds (execOp m run callee ins) := by
  unfold execOp
  split
  case h_8 =>
    refine .bind (frameSlot_inBounds run ins) fun c slot c' found => ?_
    exact pushResult_inBounds m run (loadLocal_inBounds m run fits (frameSlot_spec run found))
  case h_9 =>
    refine .bind (frameSlot_inBounds run ins) fun c slot c' found => pushResult_inBounds m run ?_
    exact .seq (localPtr_inBounds run fits (frameSlot_spec run found)) fun _ => .pure _
  case h_10 => exact .seq (captureRef_inBounds m run fits ins) fun _ => by grind
  case h_11 => exact .seq (captureTarget_inBounds m run fits ins) fun _ => by grind
  case h_12 => exact captureStore_inBounds m run fits ins
  case h_14 => exact localZero_inBounds m run fits ins
  case h_17 => exact localStore_inBounds m run fits ins
  case h_26 => exact callFn_inBounds m run calls ins
  case h_27 => exact callIndirect_inBounds m run calls ins
  all_goals grind [pushFloatValue, pushBoolValue, unaryValue]

theorem execInst_inBounds {callee : Callee σ} (calls : CalleeInBounds callee) (fits : run.Fits) (ins : MirInst) :
    InBounds (execInst m run callee ins) := by
  have op := execOp_inBounds m run calls fits ins
  unfold execInst returnValue
  grind

/-- No round of the loop ends at a table bound. -/
theorem runStep_inBounds {callee : Callee σ} (calls : CalleeInBounds callee) (fits : run.Fits) {c : Config σ}
    {stop : Stop} {mem : σ} (halts : runStep m run callee c = .halt (.error stop mem)) : stop.InTables := by
  unfold runStep at halts
  split at halts
  · cases halts
    exact inTables_notConst
  · rename_i inside
    have read : InBounds (onMem (readTable .insts run.code c.pc) : Frame σ MirInst) :=
      onMem_inBounds (readTable_inBounds (Nat.not_le.mp inside))
    have whole := read.seq fun ins => execInst_inBounds m run calls fits ins
    split at halts
    · cases halts
    · cases halts
    · rename_i stop c' fails
      cases halts
      exact whole _ _ _ fails

/-- The loop stays inside the tables, however many rounds it takes. -/
theorem runLoop_inBounds {callee : Callee σ} (calls : CalleeInBounds callee) (fits : run.Fits) (fuel : Nat) :
    InBounds (runLoop m run callee fuel) := by
  intro mem stop mem' stops
  unfold runLoop at stops
  cases ran : Steps.runFor (runStep m run callee) fuel (startConfig mem) with
  | none =>
    rw [ran] at stops
    cases stops
    exact inTables_outOfFuel
  | some result =>
    rw [ran] at stops
    obtain ⟨c, _, last⟩ := Steps.runFor_sound ran
    rw [Option.getD_some] at stops
    rw [stops] at last
    exact runStep_inBounds m run calls fits last

end

end HopHop
