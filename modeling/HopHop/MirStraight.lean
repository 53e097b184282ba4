import HopHop.MirBounds

namespace HopHop

/-! Every instruction apart from the jumps goes on to the next one, and apart from calls and binary operators
none of them can run on for ever. -/

/-- A stop that is none of the bounds the model puts on a run. -/
def Stop.Own (stop : Stop) : Prop := stop ≠ .outOfFuel

@[grind ←] theorem own_notConst : Stop.Own .notConst := nofun
@[grind ←] theorem own_error : Stop.Own .error := nofun
@[grind ←] theorem own_popEmpty : Stop.Own .popEmpty := nofun
@[grind ←] theorem own_stackFull : Stop.Own .stackFull := nofun
@[grind ←] theorem own_outOfBounds (table : Table) (index : Nat) : Stop.Own (.outOfBounds table index) := nofun

/-- The computation comes to an end by itself: it does not use up a bound. -/
abbrev Finishes {S α : Type} (x : EStateM Stop S α) : Prop := StopsIn Stop.Own x

@[grind ←] theorem finishes_notConst {σ α : Type} : Finishes (Exec.notConst : Exec σ α) := .throw own_notConst

@[grind ←] theorem finishes_error {σ α : Type} : Finishes (Exec.error : Exec σ α) := .throw own_error

@[grind ←] theorem elim_finishes {σ α : Type} (o : Option α) :
    Finishes (o.elim Exec.notConst pure : Exec σ α) := by
  cases o with
  | none => exact finishes_notConst
  | some a => exact .pure a

section Memory

variable {σ : Type} (m : Machine σ) (env : ExecEnv σ)

@[grind ←] theorem readTable_finishes {α : Type} (table : Table) (entries : List α) (i : Nat) :
    Finishes (readTable table entries i : Exec σ α) := by
  unfold readTable
  grind

@[grind ←] theorem allocOr_finishes (size start stop : Nat) : Finishes (m.allocOr size start stop) := by
  refine .seq (.modifyGet _) fun p => ?_
  cases p <;> grind

@[grind ←] theorem stringConcat_finishes (a b : CTFEString) : Finishes (stringConcat m a b) := by
  unfold stringConcat
  grind

@[grind ←] theorem evalBinaryString_finishes (op : TokenKind) (a b : CTFEString) :
    Finishes (evalBinaryString m op a b) := by
  refine .seq .get fun state => ?_
  cases op <;> grind

@[grind ←] theorem askBinary_finishes (hook : Option (BinaryHook σ)) (op : TokenKind) (lhs rhs : CTFEValue) :
    Finishes (askBinary hook op lhs rhs) := by
  cases hook <;> grind [askBinary]

@[grind ←] theorem evalBinaryFlat_finishes (hook : Option (BinaryHook σ)) (op : TokenKind)
    (lhs rhs : CTFEValue) : Finishes (evalBinaryFlat m hook op lhs rhs) := by
  unfold evalBinaryFlat
  grind

@[grind ←] theorem setReason_finishes (ins : MirInst) (reason : String) : Finishes (setReason env ins reason) := by
  cases hook : env.setReason <;> grind [setReason]

@[grind ←] theorem refuse_finishes {α : Type} (ins : MirInst) (reason : String) :
    Finishes (refuse env ins reason : Exec σ α) :=
  .seq (setReason_finishes env ins reason) fun _ => finishes_notConst

@[grind ←] theorem ask_finishes (call : σ → Answer × σ) : Finishes (ask call) := by
  grind [ask]

@[grind ←] theorem askOr_finishes (ins : MirInst) (reason : String) (call : σ → Answer × σ) :
    Finishes (askOr env ins reason call) := by
  grind [askOr]

@[grind ←] theorem askPositive_finishes (ins : MirInst) (reason : String) (call : Option (σ → Answer × σ)) :
    Finishes (askPositive env ins reason call) := by
  cases call <;> grind [askPositive]

@[grind ←] theorem askStatus_finishes (hook : Option (σ → Int × σ)) : Finishes (askStatus hook) := by
  cases hook <;> grind [askStatus]

@[grind ←] theorem pushIntValue_finishes (ins : MirInst) : Finishes (pushIntValue m env ins) := by
  grind [pushIntValue, runeValue]

@[grind ←] theorem pushStringValue_finishes (ins : MirInst) : Finishes (pushStringValue m env ins) := by
  grind [pushStringValue, decodeStringLiteralArena]

@[grind ←] theorem allocArgs_finishes (ins : MirInst) (count : Nat) : Finishes (allocArgs m ins count) := by
  grind [allocArgs]

@[grind ←] theorem loadIdent_finishes (nameStart nameEnd : UInt32) :
    Finishes (loadIdent env nameStart nameEnd) := by
  grind [loadIdent]

@[grind ←] theorem callPre_finishes (site : CallSite) (nameStart nameEnd : UInt32) :
    Finishes (callPre env site nameStart nameEnd) := by
  grind [callPre]

@[grind ←] theorem callResolved_finishes (site : CallSite) (nameStart nameEnd : UInt32) (args : List CTFEValue) :
    Finishes (callResolved m env site nameStart nameEnd args) := by
  grind [callResolved]

@[grind ←] theorem indexValue_finishes (ins : MirInst) (base idx : CTFEValue) :
    Finishes (indexValue m env ins base idx) := by
  grind [indexValue]

@[grind ←] theorem sequenceLen_finishes (base : CTFEValue) : Finishes (sequenceLen env base) := by
  grind [sequenceLen]

@[grind ←] theorem cstrValue_finishes (base : CTFEValue) : Finishes (cstrValue m base) := by
  grind [cstrValue]

@[grind ←] theorem aggGet_finishes (base : CTFEValue) (nameStart nameEnd : UInt32) :
    Finishes (aggGet env base nameStart nameEnd) := by
  grind [aggGet]

@[grind ←] theorem tryCoerce_finishes (program : Option MirProgram) (typeRef : UInt32) (value : CTFEValue) :
    Finishes (tryCoerce env program typeRef value) := by
  unfold tryCoerce
  grind

@[grind ←] theorem coerceValueForType_finishes (program : Option MirProgram) (typeRef : UInt32)
    (value : CTFEValue) : Finishes (coerceValueForType env program typeRef value) := by
  grind [coerceValueForType]

variable (run : ExecRun σ)

@[grind ←] theorem localPtr_finishes (slot : Nat) : Finishes (localPtr run slot) := by
  grind [localPtr]

@[grind ←] theorem loadLocal_finishes (slot : Nat) : Finishes (loadLocal m run slot) := by
  grind [loadLocal]

@[grind ←] theorem storeLocal_finishes (slot : Nat) (v : CTFEValue) : Finishes (storeLocal m run slot v) := by
  grind [storeLocal]

@[grind ←] theorem localTypeRef_finishes (slot : Nat) : Finishes (localTypeRef run slot) := by
  unfold localTypeRef
  grind

@[grind ←] theorem resolveSymbolName_finishes (ins : MirInst) (expected : MirSymbolKind) :
    Finishes (resolveSymbolName run ins expected) := by
  unfold resolveSymbolName
  grind

@[grind ←] theorem resolveFieldName_finishes (ins : MirInst) : Finishes (resolveFieldName run ins) := by
  unfold resolveFieldName
  grind

@[grind ←] theorem resolveHostId_finishes (ins : MirInst) : Finishes (resolveHostId run ins) := by
  unfold resolveHostId
  grind

@[grind ←] theorem zeroValue_finishes (typeRef : Nat) : Finishes (zeroValue run typeRef) := by
  unfold zeroValue
  grind

@[grind ←] theorem dropReceiver_finishes (ins : MirInst) (args : List CTFEValue) :
    Finishes (dropReceiver ins args : Exec σ (List CTFEValue)) := by
  unfold dropReceiver
  grind

end Memory

section Path

variable {σ α β : Type}

/-- A computation that leaves the next instruction and the count of backward jumps alone. -/
def SamePath (x : Frame σ α) : Prop :=
  ∀ c a c', x c = .ok a c' → c'.pc = c.pc ∧ c'.backwardJumpCount = c.backwardJumpCount

/-- Part of an instruction that goes on to the next one and comes to an end by itself. -/
structure Straight (x : Frame σ α) : Prop where
  finishes : Finishes x
  path : SamePath x

@[grind ←] theorem SamePath.pure (a : α) : SamePath (pure a : Frame σ α) := by
  intro c a' c' done
  cases done
  exact ⟨rfl, rfl⟩

@[grind ←] theorem SamePath.throw (stop : Stop) : SamePath (throw stop : Frame σ α) := nofun

@[grind ←] theorem SamePath.get : SamePath (get : Frame σ (Config σ)) := by
  intro c a c' done
  cases done
  exact ⟨rfl, rfl⟩

@[grind ←] theorem SamePath.seq {x : Frame σ α} {f : α → Frame σ β} (first : SamePath x)
    (rest : ∀ a, SamePath (f a)) : SamePath (x >>= f) := by
  intro c b c'' done
  obtain ⟨a, c', before, after⟩ := bind_ok done
  have kept := first c a c' before
  have kept' := rest a c' b c'' after
  exact ⟨kept'.1.trans kept.1, kept'.2.trans kept.2⟩

@[grind ←] theorem SamePath.onMem (x : Exec σ α) : SamePath (onMem x) := by
  intro c a c' done
  unfold HopHop.onMem at done
  split at done <;> cases done
  exact ⟨rfl, rfl⟩

@[grind ←] theorem SamePath.push (m : Machine σ) (run : ExecRun σ) (v : CTFEValue) :
    SamePath (push m run v) := by
  intro c a c' done
  unfold HopHop.push at done
  split at done <;> cases done
  exact ⟨rfl, rfl⟩

@[grind ←] theorem SamePath.pop : SamePath (pop : Frame σ CTFEValue) := by
  intro c a c' done
  unfold HopHop.pop at done
  split at done <;> cases done
  exact ⟨rfl, rfl⟩

@[grind ←] theorem SamePath.popArgs (count : Nat) : SamePath (popArgs count : Frame σ (List CTFEValue)) := by
  intro c a c' done
  unfold HopHop.popArgs at done
  split at done <;> cases done
  exact ⟨rfl, rfl⟩

@[grind ←] theorem SamePath.pushResult (m : Machine σ) (run : ExecRun σ) (x : Exec σ CTFEValue) :
    SamePath (pushResult m run x) :=
  .seq (.onMem x) fun v => .push m run v

@[grind ←] theorem Straight.pure (a : α) : Straight (pure a : Frame σ α) := ⟨.pure a, .pure a⟩

@[grind ←] theorem Straight.throw {stop : Stop} (way : stop.Own) :
    Straight (throw stop : Frame σ α) :=
  ⟨.throw way, .throw stop⟩

@[grind ←] theorem Straight.get : Straight (get : Frame σ (Config σ)) := ⟨.get, .get⟩

@[grind ←] theorem Straight.seq {x : Frame σ α} {f : α → Frame σ β} (first : Straight x)
    (rest : ∀ a, Straight (f a)) : Straight (x >>= f) :=
  ⟨first.finishes.seq fun a => (rest a).finishes, first.path.seq fun a => (rest a).path⟩

/-- Nothing runs after a stop. -/
@[grind ←] theorem Straight.throw_bind {stop : Stop} (way : stop.Own) (f : α → Frame σ β) :
    Straight (MonadExcept.throw stop >>= f) :=
  ⟨StopsIn.throw_bind way f, fun c b c' done => by
    obtain ⟨a, mid, before, -⟩ := bind_ok done
    cases before⟩

@[grind ←] theorem Straight.modify {f : Config σ → Config σ}
    (kept : (fun c => ((f c).pc, (f c).backwardJumpCount)) = fun c => (c.pc, c.backwardJumpCount)) :
    Straight (modify f : Frame σ PUnit) := by
  refine ⟨.modify _, fun c a c' done => ?_⟩
  cases done
  have kept := congrFun kept c
  exact ⟨congrArg Prod.fst kept, congrArg Prod.snd kept⟩

@[grind ←] theorem Straight.map {x : Frame σ α} (inner : Straight x) (g : α → β) : Straight (g <$> x) := by
  refine ⟨inner.finishes.map g, fun c b c' done => ?_⟩
  have unfolded : (g <$> x) c = EStateM.map g x c := rfl
  rw [unfolded, EStateM.map.eq_def] at done
  cases result : x c with
  | ok a mid =>
    rw [result] at done
    cases done
    exact inner.path c a c' result
  | error stop mid =>
    rw [result] at done
    cases done

@[grind ←] theorem Straight.onMem {x : Exec σ α} (inner : Finishes x) : Straight (onMem x) := by
  refine ⟨fun c stop c' stops => ?_, .onMem x⟩
  unfold HopHop.onMem at stops
  split at stops
  · cases stops
  · rename_i stop mem fails
    cases stops
    exact inner _ _ _ fails

variable (m : Machine σ) (run : ExecRun σ)

@[grind ←] theorem push_straight (v : CTFEValue) : Straight (push m run v) := by
  refine ⟨fun c stop c' stops => ?_, .push m run v⟩
  unfold push at stops
  split at stops <;> cases stops
  exact own_stackFull

@[grind ←] theorem pop_straight : Straight (pop : Frame σ CTFEValue) := by
  refine ⟨fun c stop c' stops => ?_, .pop⟩
  unfold pop at stops
  split at stops <;> cases stops
  exact own_popEmpty

@[grind ←] theorem popArgs_straight (count : Nat) : Straight (popArgs count : Frame σ (List CTFEValue)) := by
  refine ⟨fun c stop c' stops => ?_, .popArgs count⟩
  unfold popArgs at stops
  split at stops <;> cases stops
  exact own_popEmpty

@[grind ←] theorem pushResult_straight {x : Exec σ CTFEValue} (inner : Finishes x) :
    Straight (pushResult m run x) :=
  .seq (.onMem inner) fun v => push_straight m run v

@[grind ←] theorem boolOf_straight (v : CTFEValue) : Straight (boolOf v : Frame σ Bool) := by
  unfold boolOf
  grind

@[grind ←] theorem guardJump_straight (ins : MirInst) : Straight (guardJump run ins) := by
  unfold guardJump
  grind

@[grind ←] theorem installed_straight (hook : Option α) {use : α → Frame σ β} (inner : ∀ a, Straight (use a)) :
    Straight (installed hook use) := by
  unfold installed
  grind

@[grind ←] theorem frameSlot_straight (ins : MirInst) : Straight (frameSlot run ins) := by
  unfold frameSlot
  grind

@[grind ←] theorem captureRef_straight (ins : MirInst) : Straight (captureRef m run ins) := by
  unfold captureRef
  grind

@[grind ←] theorem captureTarget_straight (ins : MirInst) : Straight (captureTarget m run ins) := by
  unfold captureTarget
  grind

@[grind ←] theorem captureStore_straight (ins : MirInst) : Straight (captureStore m run ins) := by
  unfold captureStore
  grind

@[grind ←] theorem popCaptures_straight (refs : Ptr) (count : Nat) : Straight (popCaptures m refs count) := by
  induction count with
  | zero => exact .pure _
  | succ count ih => unfold popCaptures; grind

@[grind ←] theorem makeClosure_straight (ins : MirInst) : Straight (makeClosure m run ins) := by
  unfold makeClosure
  grind

@[grind ←] theorem pushConst_straight (ins : MirInst) : Straight (pushConst m run ins) := by
  unfold pushConst
  grind

@[grind ←] theorem derefLoad_straight : Straight (derefLoad m run) := by
  unfold derefLoad
  grind

@[grind ←] theorem derefStore_straight (ins : MirInst) : Straight (derefStore m run ins) := by
  refine .seq pop_straight fun ref => .seq pop_straight fun v => ?_
  cases referenceTarget ref with
  | none => exact .throw own_notConst
  | some target =>
    refine .seq .get fun c => ?_
    grind

@[grind ←] theorem localZero_straight (ins : MirInst) : Straight (localZero m run ins) := by
  unfold localZero
  grind

@[grind ←] theorem localStore_straight (ins : MirInst) : Straight (localStore m run ins) := by
  unfold localStore
  grind

@[grind ←] theorem addrOf_straight (ins : MirInst) : Straight (addrOf m run ins) := by
  unfold addrOf
  grind

@[grind ←] theorem storeIdent_straight (ins : MirInst) : Straight (storeIdent run ins) := by
  unfold storeIdent
  grind

@[grind ←] theorem tupleMake_straight (ins : MirInst) : Straight (tupleMake m run ins) := by
  unfold tupleMake
  grind

@[grind ←] theorem castInst_straight (ins : MirInst) : Straight (castInst m run ins) := by
  unfold castInst castValue
  grind

@[grind ←] theorem coerceInst_straight (ins : MirInst) : Straight (coerceInst m run ins) := by
  unfold coerceInst
  grind

@[grind ←] theorem optionalWrap_straight (ins : MirInst) : Straight (optionalWrap m run ins) := by
  unfold optionalWrap
  grind

@[grind ←] theorem optionalUnwrap_straight (ins : MirInst) : Straight (optionalUnwrap m run ins) := by
  unfold optionalUnwrap
  grind

@[grind ←] theorem iterNext_straight (ins : MirInst) : Straight (iterNext m run ins) := by
  unfold iterNext
  grind

@[grind ←] theorem sliceMake_straight (ins : MirInst) : Straight (sliceMake m run ins) := by
  unfold sliceMake
  grind

@[grind ←] theorem callHost_straight (ins : MirInst) : Straight (callHost m run ins) := by
  unfold callHost
  cases run.env.hostCall with
  | none => exact .throw own_notConst
  | some host => exact .seq (popArgs_straight _) fun args => by grind

@[grind ←] theorem callByName_straight (ins : MirInst) : Straight (callByName m run ins) := by
  unfold callByName
  grind

@[grind ←] theorem Straight.samePath {x : Frame σ α} (straight : Straight x) : SamePath x := straight.path

@[grind ←] theorem StopsIn.ofStraight {x : Frame σ α} (straight : Straight x) : Finishes x := straight.finishes

theorem callFn_samePath (callee : Callee σ) (ins : MirInst) : SamePath (callFn m run callee ins) := by
  unfold callFn
  grind

theorem callIndirect_samePath (callee : Callee σ) (ins : MirInst) : SamePath (callIndirect m run callee ins) := by
  unfold callIndirect
  grind

/-- Apart from the jumps every instruction goes on to the next one. -/
theorem execOp_samePath (callee : Callee σ) {ins : MirInst} (noJump : ins.op ≠ .JUMP)
    (noBranch : ins.op ≠ .JUMP_IF_FALSE) : SamePath (execOp m run callee ins) := by
  have calls := callFn_samePath m run callee ins
  have indirect := callIndirect_samePath m run callee ins
  unfold execOp
  split <;> grind [pushFloatValue, pushBoolValue, unaryValue]

/-- Apart from the jumps, the calls and the binary operators every instruction comes to an end by itself. -/
theorem execOp_finishes (callee : Callee σ) {ins : MirInst} (noJump : ins.op ≠ .JUMP)
    (noBranch : ins.op ≠ .JUMP_IF_FALSE) (noCall : ins.op ≠ .CALL_FN) (noIndirect : ins.op ≠ .CALL_INDIRECT)
    (noBinary : ins.op ≠ .BINARY) : Finishes (execOp m run callee ins) := by
  unfold execOp
  split <;> grind [pushFloatValue, pushBoolValue, unaryValue]

end Path

end HopHop
