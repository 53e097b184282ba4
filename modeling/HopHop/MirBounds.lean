import HopHop.MirExec

namespace HopHop

/-! How a computation of the interpreter may stop: the primitives that work on the memory refuse, fail or run
out of fuel, and none of them, nor any instruction, stops at a table bound. -/

/-- The computation stops, if it does, in one of these ways. -/
def StopsIn {S α : Type} (ways : Stop → Prop) (x : EStateM Stop S α) : Prop :=
  ∀ s stop s', x s = .error stop s' → ways stop

/-- The ways in which a primitive on the memory stops. -/
def Stop.Plain (stop : Stop) : Prop := stop = .notConst ∨ stop = .error ∨ stop = .outOfFuel

def Stop.InTables (stop : Stop) : Prop := ∀ table index, stop ≠ .outOfBounds table index

theorem Stop.Plain.inTables {stop : Stop} (plain : stop.Plain) : stop.InTables := by
  rcases plain with rfl | rfl | rfl <;> exact nofun

@[grind ←] theorem plain_notConst : Stop.Plain .notConst := .inl rfl
@[grind ←] theorem plain_error : Stop.Plain .error := .inr (.inl rfl)
@[grind ←] theorem plain_outOfFuel : Stop.Plain .outOfFuel := .inr (.inr rfl)
@[grind ←] theorem inTables_notConst : Stop.InTables .notConst := nofun
@[grind ←] theorem inTables_error : Stop.InTables .error := nofun
@[grind ←] theorem inTables_popEmpty : Stop.InTables .popEmpty := nofun
@[grind ←] theorem inTables_stackFull : Stop.InTables .stackFull := nofun
@[grind ←] theorem inTables_outOfFuel : Stop.InTables .outOfFuel := nofun

/-- The computation stops only as the primitives on the memory do. -/
abbrev Plain {S α : Type} (x : EStateM Stop S α) : Prop := StopsIn Stop.Plain x

/-- The computation never reads a table outside its bounds. -/
abbrev InBounds {S α : Type} (x : EStateM Stop S α) : Prop := StopsIn Stop.InTables x

section Rules

variable {S α β : Type} {ways : Stop → Prop}

/-- A computation that succeeds does so in each of its parts. -/
theorem bind_ok {x : EStateM Stop S α} {f : α → EStateM Stop S β} {s s'' : S} {b : β}
    (done : (x >>= f) s = .ok b s'') : ∃ a s', x s = .ok a s' ∧ f a s' = .ok b s'' := by
  have unfolded : (x >>= f) s = EStateM.bind x f s := rfl
  rw [unfolded, EStateM.bind.eq_def] at done
  cases run : x s with
  | ok a mid =>
    rw [run] at done
    exact ⟨a, mid, rfl, done⟩
  | error stop mid =>
    rw [run] at done
    cases done

theorem run_bind_ok {x : EStateM Stop S α} {f : α → EStateM Stop S β} {a : α} {c s : S} (h : x c = .ok a s) :
    (x >>= f) c = f a s := by
  change EStateM.bind x f c = f a s
  rw [EStateM.bind, h]

theorem run_bind_error {x : EStateM Stop S α} {f : α → EStateM Stop S β} {stop : Stop} {c s : S}
    (h : x c = .error stop s) : (x >>= f) c = .error stop s := by
  change EStateM.bind x f c = .error stop s
  rw [EStateM.bind, h]

@[grind ←] theorem Plain.inBounds {x : EStateM Stop S α} (plain : Plain x) : InBounds x :=
  fun s stop s' stops => (plain s stop s' stops).inTables

@[grind ←] theorem StopsIn.pure (a : α) : StopsIn ways (pure a : EStateM Stop S α) := nofun

@[grind ←] theorem StopsIn.throw {stop : Stop} (way : ways stop) : StopsIn ways (throw stop : EStateM Stop S α) := by
  intro s stop s' stops
  injection stops with same
  exact same ▸ way

theorem StopsIn.bind {x : EStateM Stop S α} {f : α → EStateM Stop S β} (first : StopsIn ways x)
    (rest : ∀ s a s', x s = .ok a s' → StopsIn ways (f a)) : StopsIn ways (x >>= f) := by
  intro s stop s' stops
  have unfolded : (x >>= f) s = EStateM.bind x f s := rfl
  rw [unfolded, EStateM.bind.eq_def] at stops
  cases run : x s with
  | ok a mid =>
    rw [run] at stops
    exact rest s a mid run mid stop s' stops
  | error stop' mid =>
    rw [run] at stops
    cases stops
    exact first s _ _ run

@[grind ←] theorem StopsIn.seq {x : EStateM Stop S α} {f : α → EStateM Stop S β} (first : StopsIn ways x)
    (rest : ∀ a, StopsIn ways (f a)) : StopsIn ways (x >>= f) :=
  first.bind fun _ a _ _ => rest a

/-- Nothing runs after a stop. -/
@[grind ←] theorem StopsIn.throw_bind {stop : Stop} (way : ways stop) (f : α → EStateM Stop S β) :
    StopsIn ways (MonadExcept.throw stop >>= f) :=
  (StopsIn.throw way).bind nofun

@[grind ←] theorem StopsIn.map {x : EStateM Stop S α} (inner : StopsIn ways x) (g : α → β) :
    StopsIn ways (g <$> x) := by
  intro s stop s' stops
  have unfolded : (g <$> x) s = EStateM.map g x s := rfl
  rw [unfolded, EStateM.map.eq_def] at stops
  cases run : x s with
  | ok a mid => rw [run] at stops; cases stops
  | error stop' mid =>
    rw [run] at stops
    cases stops
    exact inner s _ _ run

@[grind ←] theorem StopsIn.modifyGet (f : S → α × S) : StopsIn ways (modifyGet f : EStateM Stop S α) := nofun

@[grind ←] theorem StopsIn.get : StopsIn ways (get : EStateM Stop S S) := nofun

@[grind ←] theorem StopsIn.set (s : S) : StopsIn ways (set s : EStateM Stop S PUnit) := nofun

@[grind ←] theorem StopsIn.modify (f : S → S) : StopsIn ways (modify f : EStateM Stop S PUnit) := nofun

theorem StopsIn.ite {c : Prop} [Decidable c] {x y : EStateM Stop S α} (yes : c → StopsIn ways x)
    (no : ¬ c → StopsIn ways y) : StopsIn ways (if c then x else y) := by
  by_cases holds : c
  · rw [if_pos holds]; exact yes holds
  · rw [if_neg holds]; exact no holds

end Rules

@[grind ←] theorem notConst_plain {σ α : Type} : Plain (Exec.notConst : Exec σ α) := .throw plain_notConst

@[grind ←] theorem error_plain {σ α : Type} : Plain (Exec.error : Exec σ α) := .throw plain_error

@[grind ←] theorem elim_plain {σ α : Type} (o : Option α) : Plain (o.elim Exec.notConst pure : Exec σ α) := by
  cases o with
  | none => exact notConst_plain
  | some a => exact .pure a

section Memory

variable {σ : Type} (m : Machine σ) (env : ExecEnv σ)

@[grind ←] theorem readTable_inBounds {α : Type} {table : Table} {entries : List α} {i : Nat}
    (inside : i < entries.length) : InBounds (readTable table entries i : Exec σ α) := by
  rw [readTable, List.getElem?_eq_getElem inside]
  exact .pure _

@[grind ←] theorem allocOr_plain (size start stop : Nat) : Plain (m.allocOr size start stop) := by
  refine .seq (.modifyGet _) fun p => ?_
  cases p <;> grind

@[grind ←] theorem stringConcat_plain (a b : CTFEString) : Plain (stringConcat m a b) := by
  unfold stringConcat
  grind

@[grind ←] theorem evalBinaryString_plain (op : TokenKind) (a b : CTFEString) :
    Plain (evalBinaryString m op a b) := by
  refine .seq .get fun state => ?_
  cases op with
  | ADD => exact (stringConcat_plain m a b).map CTFEValue.string
  | EQ | NEQ => exact .seq .get fun state => .pure _
  | LT | GT | LTE | GTE => exact .pure _
  | _ => exact notConst_plain

@[grind ←] theorem askBinary_plain (hook : Option (BinaryHook σ)) (op : TokenKind) (lhs rhs : CTFEValue) :
    Plain (askBinary hook op lhs rhs) := by
  cases hook <;> grind [askBinary]

@[grind ←] theorem evalBinaryFlat_plain (hook : Option (BinaryHook σ)) (op : TokenKind) (lhs rhs : CTFEValue) :
    Plain (evalBinaryFlat m hook op lhs rhs) := by
  unfold evalBinaryFlat
  grind

@[grind ←] theorem evalBinary_plain (hook : Option (BinaryHook σ)) (op : TokenKind) (fuel : Nat)
    (lhs rhs : CTFEValue) : Plain (evalBinary m hook op fuel lhs rhs) := by
  induction fuel generalizing lhs rhs with
  | zero =>
    rw [evalBinary.eq_def]
    refine .ite (fun _ => ?_) fun _ => .ite (fun _ => ?_) fun _ => evalBinaryFlat_plain m hook op lhs rhs
    · rcases optionalPayload lhs with _ | _ | payload
      · exact notConst_plain
      · exact notConst_plain
      · exact .throw plain_outOfFuel
    · rcases optionalPayload rhs with _ | _ | payload
      · exact notConst_plain
      · exact notConst_plain
      · exact .throw plain_outOfFuel
  | succ fuel ih =>
    rw [evalBinary.eq_def]
    refine .ite (fun _ => ?_) fun _ => .ite (fun _ => ?_) fun _ => evalBinaryFlat_plain m hook op lhs rhs
    · rcases optionalPayload lhs with _ | _ | payload
      · exact notConst_plain
      · exact notConst_plain
      · exact .seq .get fun _ => ih _ _
    · rcases optionalPayload rhs with _ | _ | payload
      · exact notConst_plain
      · exact notConst_plain
      · exact .seq .get fun _ => ih _ _

@[grind ←] theorem setReason_plain (ins : MirInst) (reason : String) : Plain (setReason env ins reason) := by
  cases hook : env.setReason <;> grind [setReason]

@[grind ←] theorem refuse_plain {α : Type} (ins : MirInst) (reason : String) :
    Plain (refuse env ins reason : Exec σ α) :=
  .seq (setReason_plain env ins reason) fun _ => notConst_plain

@[grind ←] theorem ask_plain (call : σ → Answer × σ) : Plain (ask call) := by
  grind [ask]

@[grind ←] theorem askOr_plain (ins : MirInst) (reason : String) (call : σ → Answer × σ) :
    Plain (askOr env ins reason call) := by
  grind [askOr]

@[grind ←] theorem askPositive_plain (ins : MirInst) (reason : String) (call : Option (σ → Answer × σ)) :
    Plain (askPositive env ins reason call) := by
  cases call <;> grind [askPositive]

@[grind ←] theorem askStatus_plain (hook : Option (σ → Int × σ)) : Plain (askStatus hook) := by
  cases hook <;> grind [askStatus]

@[grind ←] theorem pushIntValue_plain (ins : MirInst) : Plain (pushIntValue m env ins) := by
  grind [pushIntValue, runeValue]

@[grind ←] theorem decodeStringLiteralArena_plain (src : List UInt8) (start stop : Nat) :
    Plain (decodeStringLiteralArena m src start stop) := by
  grind [decodeStringLiteralArena]

@[grind ←] theorem pushStringValue_plain (ins : MirInst) : Plain (pushStringValue m env ins) := by
  grind [pushStringValue]

@[grind ←] theorem allocArgs_plain (ins : MirInst) (count : Nat) : Plain (allocArgs m ins count) := by
  grind [allocArgs]

@[grind ←] theorem loadIdent_plain (nameStart nameEnd : UInt32) : Plain (loadIdent env nameStart nameEnd) := by
  grind [loadIdent]

@[grind ←] theorem callPre_plain (site : CallSite) (nameStart nameEnd : UInt32) :
    Plain (callPre env site nameStart nameEnd) := by
  grind [callPre]

@[grind ←] theorem callResolved_plain (site : CallSite) (nameStart nameEnd : UInt32) (args : List CTFEValue) :
    Plain (callResolved m env site nameStart nameEnd args) := by
  grind [callResolved]

@[grind ←] theorem binaryValue_plain (fuel : Nat) (ins : MirInst) (lhs rhs : CTFEValue) :
    Plain (binaryValue m env fuel ins lhs rhs) := by
  intro s stop s' stops
  unfold binaryValue at stops
  split at stops
  · exact refuse_plain env ins _ _ stop s' stops
  · exact evalBinary_plain m _ _ _ _ _ s stop s' stops

@[grind ←] theorem indexValue_plain (ins : MirInst) (base idx : CTFEValue) :
    Plain (indexValue m env ins base idx) := by
  grind [indexValue]

@[grind ←] theorem sequenceLen_plain (base : CTFEValue) : Plain (sequenceLen env base) := by
  grind [sequenceLen]

@[grind ←] theorem cstrValue_plain (base : CTFEValue) : Plain (cstrValue m base) := by
  grind [cstrValue]

@[grind ←] theorem aggGet_plain (base : CTFEValue) (nameStart nameEnd : UInt32) :
    Plain (aggGet env base nameStart nameEnd) := by
  grind [aggGet]

/-- The types table is read behind the check of the index. -/
@[grind ←] theorem tryCoerce_inBounds (program : Option MirProgram) (typeRef : UInt32) (value : CTFEValue) :
    InBounds (tryCoerce env program typeRef value) := by
  unfold tryCoerce
  grind

@[grind ←] theorem coerceValueForType_inBounds (program : Option MirProgram) (typeRef : UInt32) (value : CTFEValue) :
    InBounds (coerceValueForType env program typeRef value) := by
  grind [coerceValueForType]

end Memory

section Frame

variable {σ : Type} (m : Machine σ) (run : ExecRun σ)

/-- The frame has room for all of its locals, and among them the parameters of its function. -/
structure ExecRun.Fits : Prop where
  allocated : run.localCount ≤ run.localsAllocated
  params : ∀ fn, run.function = some fn → fn.paramCount.toNat ≤ run.localCount

@[grind ←] theorem onMem_inBounds {α : Type} {x : Exec σ α} (inner : InBounds x) : InBounds (onMem x) := by
  intro c stop c' stops
  unfold onMem at stops
  split at stops
  · cases stops
  · rename_i stop mem fails
    cases stops
    exact inner _ _ _ fails

@[grind ←] theorem push_inBounds (v : CTFEValue) : InBounds (push m run v) := by
  intro c stop c' stops
  unfold push at stops
  split at stops <;> cases stops
  exact inTables_stackFull

@[grind ←] theorem pop_inBounds : InBounds (pop : Frame σ CTFEValue) := by
  intro c stop c' stops
  unfold pop at stops
  split at stops <;> cases stops
  exact inTables_popEmpty

@[grind ←] theorem popArgs_inBounds (count : Nat) : InBounds (popArgs count : Frame σ (List CTFEValue)) := by
  intro c stop c' stops
  unfold popArgs at stops
  split at stops <;> cases stops
  exact inTables_popEmpty

@[grind ←] theorem pushResult_inBounds {x : Exec σ CTFEValue} (inner : InBounds x) : InBounds (pushResult m run x) :=
  .seq (onMem_inBounds inner) fun v => push_inBounds m run v

theorem localPtr_inBounds (fits : run.Fits) {slot : Nat} (inside : slot < run.localCount) :
    InBounds (localPtr run slot) := by
  rw [localPtr, if_pos (Nat.lt_of_lt_of_le inside fits.allocated)]
  exact .pure _

theorem loadLocal_inBounds (fits : run.Fits) {slot : Nat} (inside : slot < run.localCount) :
    InBounds (loadLocal m run slot) :=
  .seq (localPtr_inBounds run fits inside) fun _ => .seq .get fun _ => .pure _

theorem storeLocal_inBounds (fits : run.Fits) {slot : Nat} (inside : slot < run.localCount) (v : CTFEValue) :
    InBounds (storeLocal m run slot v) :=
  .seq (localPtr_inBounds run fits inside) fun _ => .modify _

/-- The metadata of a local is read behind the check of the range; the sum of the two numbers is below the
length of the table and cannot wrap around. -/
@[grind ←] theorem localTypeRef_inBounds (slot : Nat) : InBounds (localTypeRef run slot) := by
  unfold localTypeRef
  split
  · rename_i program fn _ _
    refine .ite (fun _ => .pure _) fun inside => ?_
    have short : program.locals.length < UInt32.size := program.lengths _ (by simp)
    have sum : (fn.localStart + UInt32.ofNat slot).toNat = fn.localStart.toNat + slot := by
      have size : UInt32.size = 2 ^ 32 := rfl
      rw [UInt32.toNat_add, UInt32.toNat_ofNat', Nat.mod_eq_of_lt (by omega), Nat.mod_eq_of_lt (by omega)]
    refine .seq (readTable_inBounds ?_) fun _ => .pure _
    omega
  · exact .pure _

@[grind ←] theorem resolveSymbolName_inBounds (ins : MirInst) (expected : MirSymbolKind) :
    InBounds (resolveSymbolName run ins expected) := by
  unfold resolveSymbolName
  grind

@[grind ←] theorem resolveFieldName_inBounds (ins : MirInst) : InBounds (resolveFieldName run ins) := by
  unfold resolveFieldName
  grind

@[grind ←] theorem resolveHostId_inBounds (ins : MirInst) : InBounds (resolveHostId run ins) := by
  unfold resolveHostId
  grind

@[grind ←] theorem zeroValue_inBounds (typeRef : Nat) : InBounds (zeroValue run typeRef) := by
  unfold zeroValue
  grind

@[grind ←] theorem adjustArgs_inBounds (ins : MirInst) (functionIndex : UInt32) (args : List CTFEValue) :
    InBounds (adjustArgs run ins functionIndex args) := by
  unfold adjustArgs
  grind

@[grind ←] theorem dropReceiver_inBounds (ins : MirInst) (args : List CTFEValue) :
    InBounds (dropReceiver ins args : Exec σ (List CTFEValue)) := by
  unfold dropReceiver
  grind

@[grind ←] theorem boolOf_inBounds (v : CTFEValue) : InBounds (boolOf v : Frame σ Bool) := by
  unfold boolOf
  grind

@[grind ←] theorem jump_inBounds (ins : MirInst) : InBounds (jump run ins) := by
  unfold jump
  grind

@[grind ←] theorem guardJump_inBounds (ins : MirInst) : InBounds (guardJump run ins) := by
  unfold guardJump
  grind

@[grind ←] theorem installed_inBounds {α β : Type} (hook : Option α) {use : α → Frame σ β}
    (inner : ∀ a, InBounds (use a)) : InBounds (installed hook use) := by
  unfold installed
  grind

/-- The slot a local instruction gets is one of the frame. -/
theorem frameSlot_spec {ins : MirInst} {c c' : Config σ} {slot : Nat} (found : frameSlot run ins c = .ok slot c') :
    slot < run.localCount := by
  unfold frameSlot at found
  split at found
  · cases found
  · cases found
    omega

@[grind ←] theorem frameSlot_inBounds (ins : MirInst) : InBounds (frameSlot run ins) := by
  unfold frameSlot
  grind

/-- The hidden closure argument is the last parameter, which the frame has. -/
theorem captureRef_inBounds (fits : run.Fits) (ins : MirInst) : InBounds (captureRef m run ins) := by
  unfold captureRef
  split
  · exact .throw inTables_notConst
  · rename_i fn function
    refine .ite (fun _ => .throw inTables_notConst) fun entered => ?_
    have params := fits.params fn function
    have positive : 0 < fn.paramCount.toNat := by
      have nonzero : fn.paramCount ≠ 0 := fun zero => entered (Or.inr (Or.inl zero))
      exact Nat.pos_of_ne_zero fun zero => nonzero (UInt32.toNat_inj.mp zero)
    have load := loadLocal_inBounds m run fits (show fn.paramCount.toNat - 1 < run.localCount by omega)
    grind

theorem captureTarget_inBounds (fits : run.Fits) (ins : MirInst) : InBounds (captureTarget m run ins) := by
  have ref := captureRef_inBounds m run fits ins
  unfold captureTarget
  grind

theorem captureStore_inBounds (fits : run.Fits) (ins : MirInst) : InBounds (captureStore m run ins) := by
  have ref := captureRef_inBounds m run fits ins
  unfold captureStore
  grind

@[grind ←] theorem popCaptures_inBounds (refs : Ptr) (count : Nat) : InBounds (popCaptures m refs count) := by
  induction count with
  | zero => exact .pure _
  | succ count ih => unfold popCaptures; grind

@[grind ←] theorem makeClosure_inBounds (ins : MirInst) : InBounds (makeClosure m run ins) := by
  unfold makeClosure
  grind

@[grind ←] theorem pushConst_inBounds (ins : MirInst) : InBounds (pushConst m run ins) := by
  unfold pushConst
  grind

@[grind ←] theorem derefLoad_inBounds : InBounds (derefLoad m run) := by
  unfold derefLoad
  grind

@[grind ←] theorem derefStore_inBounds (ins : MirInst) : InBounds (derefStore m run ins) := by
  refine .seq pop_inBounds fun ref => .seq pop_inBounds fun v => ?_
  cases referenceTarget ref with
  | none => exact .throw inTables_notConst
  | some target =>
    refine .seq .get fun c => ?_
    grind

theorem localZero_inBounds (fits : run.Fits) (ins : MirInst) : InBounds (localZero m run ins) := by
  refine .bind (frameSlot_inBounds run ins) fun c slot c' found => ?_
  have store := fun v => storeLocal_inBounds m run fits (frameSlot_spec run found) v
  grind

theorem localStore_inBounds (fits : run.Fits) (ins : MirInst) : InBounds (localStore m run ins) := by
  refine .bind (frameSlot_inBounds run ins) fun c slot c' found => ?_
  have store := fun v => storeLocal_inBounds m run fits (frameSlot_spec run found) v
  grind

@[grind ←] theorem addrOf_inBounds (ins : MirInst) : InBounds (addrOf m run ins) := by
  unfold addrOf
  grind

@[grind ←] theorem storeIdent_inBounds (ins : MirInst) : InBounds (storeIdent run ins) := by
  unfold storeIdent
  grind

@[grind ←] theorem tupleMake_inBounds (ins : MirInst) : InBounds (tupleMake m run ins) := by
  unfold tupleMake
  grind

@[grind ←] theorem castInst_inBounds (ins : MirInst) : InBounds (castInst m run ins) := by
  unfold castInst castValue
  grind

@[grind ←] theorem coerceInst_inBounds (ins : MirInst) : InBounds (coerceInst m run ins) := by
  unfold coerceInst
  grind

@[grind ←] theorem optionalWrap_inBounds (ins : MirInst) : InBounds (optionalWrap m run ins) := by
  unfold optionalWrap
  grind

@[grind ←] theorem optionalUnwrap_inBounds (ins : MirInst) : InBounds (optionalUnwrap m run ins) := by
  unfold optionalUnwrap
  grind

@[grind ←] theorem iterNext_inBounds (ins : MirInst) : InBounds (iterNext m run ins) := by
  unfold iterNext
  grind

@[grind ←] theorem sliceMake_inBounds (ins : MirInst) : InBounds (sliceMake m run ins) := by
  unfold sliceMake
  grind

@[grind ←] theorem callHost_inBounds (ins : MirInst) : InBounds (callHost m run ins) := by
  unfold callHost
  cases run.env.hostCall with
  | none => exact .throw inTables_notConst
  | some host => exact .seq (popArgs_inBounds _) fun args => by grind

@[grind ←] theorem callByName_inBounds (ins : MirInst) : InBounds (callByName m run ins) := by
  unfold callByName
  grind

end Frame

end HopHop
