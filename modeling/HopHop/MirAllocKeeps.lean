import HopHop.MirAllocSplice

namespace HopHop

/-! What a pass over the allocations keeps of a program, and with it a sequence of passes. -/

open CodeSplice

/-- The functions lie one behind the other, from the first place up to the second. -/
def Tiled : Nat → List MirFunction → Nat → Prop
  | start, [], stop => start = stop
  | start, fn :: rest, stop => fn.instStart.toNat = start ∧ Tiled (start + fn.instLen.toNat) rest stop

theorem Tiled.range {start stop : Nat} {funcs : List MirFunction} (tiled : Tiled start funcs stop) :
    start ≤ stop ∧ ∀ fn ∈ funcs, start ≤ fn.instStart.toNat ∧ fn.instStart.toNat + fn.instLen.toNat ≤ stop := by
  induction funcs generalizing start with
  | nil => exact ⟨Nat.le_of_eq tiled, fun fn member => by cases member⟩
  | cons fn rest ih =>
    obtain ⟨here, tiled⟩ := tiled
    obtain ⟨order, later⟩ := ih tiled
    refine ⟨by omega, fun fn' member => ?_⟩
    rcases List.mem_cons.mp member with rfl | member
    · exact ⟨Nat.le_of_eq here.symm, by omega⟩
    · have := later fn' member
      exact ⟨by omega, this.2⟩

/-- The instructions of a function in a table. -/
def MirFunction.codeIn (fn : MirFunction) (insts : List MirInst) : List MirInst :=
  (insts.drop fn.instStart.toNat).take fn.instLen.toNat

/-- The entry is the one of the same function, moved. -/
def MirFunction.Moved (fn fn' : MirFunction) : Prop :=
  fn' = { fn with instStart := fn'.instStart, instLen := fn'.instLen }

section

variable {pass : AllocPass} {program : MirProgram}

/-- A function in the new table: its code is that of its cells, for the places the pass found in it. -/
structure AllocPass.Rewrites (pass : AllocPass) (program : MirProgram) (insts : List MirInst) (t : MirTables)
    (fn fn' : MirFunction) (cells : List (Cell MirInst)) : Prop where
  moved : fn.Moved fn'
  range : (fn.code program).length = fn.instLen.toNat
  spliced : ∃ t₁, pass.IsFunction fn (fn.code program) (pass.sites fn (fn.code program) t₁).1 t cells
  code : fn'.codeIn insts = splice mirJumpForm cells
  inside : fn'.instStart.toNat + fn'.instLen.toNat ≤ insts.length
  length : fn'.instLen.toNat = place cells cells.length

theorem length_rewriteFrom {fn : MirFunction} {code : List MirInst} {room : Nat} {t t₁ : MirTables}
    {out : List MirInst × MirTables}
    (done : pass.rewriteFrom fn code (pass.sites fn code t₁).1 code 0 room t = .ok out) :
    out.1.length = code.length + extraLen (pass.sites fn code t₁).1 := by
  obtain ⟨_, _, cells, length, written, isCells⟩ := rewriteFrom_ok done
  have isFunction : pass.IsFunction fn code (pass.sites fn code t₁).1 out.2 cells :=
    ⟨length, fun k ins atPlace => by simpa only [Nat.zero_add] using isCells k ins atPlace⟩
  have whole := isFunction.place_eq (Nat.le_refl _)
  rw [place, List.take_length, AllocPass.pcMap, length, sum_insertCount] at whole
  rw [written, length_flatMap_code, whole]

/-- The code of one function. -/
theorem rewriteFrom_splice {fn : MirFunction} {room : Nat} {t t₁ : MirTables} {out : List MirInst × MirTables}
    (range : (fn.code program).length = fn.instLen.toNat) (small : room < UInt32.size)
    (done : pass.rewriteFrom fn (fn.code program) (pass.sites fn (fn.code program) t₁).1 (fn.code program) 0 room t =
      .ok out) :
    t.Extends out.2 ∧ out.1.length ≤ room ∧ ∃ cells,
      pass.IsFunction fn (fn.code program) (pass.sites fn (fn.code program) t₁).1 out.2 cells ∧
      out.1 = splice mirJumpForm cells ∧
      (fn.instLen + UInt32.ofNat (extraLen (pass.sites fn (fn.code program) t₁).1)).toNat = out.1.length := by
  obtain ⟨grown, short, cells, length, written, isCells⟩ := rewriteFrom_ok done
  have isFunction : pass.IsFunction fn (fn.code program) (pass.sites fn (fn.code program) t₁).1 out.2 cells :=
    ⟨length, fun k ins atPlace => by simpa only [Nat.zero_add] using isCells k ins atPlace⟩
  have moves : pass.movedInst fn (pass.sites fn (fn.code program) t₁).1 = relocate mirJumpForm cells :=
    funext (isFunction.movedInst range)
  rw [moves] at written
  have total : out.1.length = fn.instLen.toNat + extraLen (pass.sites fn (fn.code program) t₁).1 := by
    rw [length_rewriteFrom done, range]
  refine ⟨grown, short, cells, isFunction, written, ?_⟩
  rw [UInt32.toNat_add, UInt32.toNat_ofNat', total, Nat.add_mod_mod, Nat.mod_eq_of_lt]
  exact Nat.lt_of_le_of_lt (Nat.le_of_eq total.symm) (Nat.lt_of_le_of_lt short small)

/-- Every function is written behind the one before it. -/
theorem rewriteFuncs_ok {funcs : List MirFunction} {front : List MirInst} {room : Nat} {t : MirTables} {out : Rewritten}
    (small : front.length + room < UInt32.size)
    (done : pass.rewriteFuncs program funcs front.length room t = .ok out) :
    t.Extends out.tables ∧ out.insts.length ≤ room ∧
      Tiled front.length out.funcs (front.length + out.insts.length) ∧ out.funcs.length = funcs.length ∧
      ∀ (k : Nat) (fn : MirFunction), funcs[k]? = some fn → ∃ fn' cells, out.funcs[k]? = some fn' ∧
        pass.Rewrites program (front ++ out.insts) out.tables fn fn' cells := by
  induction funcs generalizing front room t out with
  | nil =>
    cases done
    exact ⟨.refl t, Nat.zero_le _, rfl, rfl, fun _ _ atPlace => by cases atPlace⟩
  | cons fn rest ih =>
    rw [AllocPass.rewriteFuncs] at done
    by_cases range : (fn.code program).length = fn.instLen.toNat
    case neg =>
      simp only [ne_eq, range, not_false_eq_true, if_true] at done
      cases done
    case pos =>
      simp only [ne_eq, range, not_true_eq_false, if_false] at done
      obtain ⟨written, writtenDone, done⟩ := Except.of_bind done
      obtain ⟨later, laterDone, done⟩ := Except.of_bind done
      cases done
      obtain ⟨grown₁, short₁, cells, isFunction, isSplice, length⟩ :=
        rewriteFrom_splice range (by omega) writtenDone
      have grown₀ := (measureFrom_spec pass fn (fn.code program) (fn.code program).length 0 t).1
      have start : (UInt32.ofNat front.length).toNat = front.length := by
        rw [UInt32.toNat_ofNat', Nat.mod_eq_of_lt (Nat.lt_of_le_of_lt (Nat.le_add_right _ room) small)]
      rw [← List.length_append] at laterDone
      obtain ⟨grown₂, short₂, tiled, count, rewrites⟩ := ih (by rw [List.length_append]; omega) laterDone
      rw [List.length_append] at tiled
      refine ⟨(grown₀.trans grown₁).trans grown₂, by rw [List.length_append]; omega, ⟨start, ?_⟩,
        congrArg Nat.succ count, fun k fn' atPlace => ?_⟩
      · rw [show (fn.movedTo front.length _).instLen.toNat = written.1.length from length, List.length_append,
          ← Nat.add_assoc]
        exact tiled
      · cases k with
        | zero =>
          cases atPlace
          refine ⟨_, cells, rfl, rfl, range, ⟨t, ?_⟩, ?_, ?_, ?_⟩
          · exact ⟨isFunction.length, fun k ins atPlace => by
              obtain ⟨cell, atCell, isCell⟩ := isFunction.cell k ins atPlace
              exact ⟨cell, atCell, isCell.extend grown₂⟩⟩
          · rw [MirFunction.codeIn, show (fn.movedTo front.length _).instLen.toNat = written.1.length from length,
              show (fn.movedTo front.length _).instStart.toNat = front.length from start, List.drop_left,
              List.take_left, isSplice]
          · rw [show (fn.movedTo front.length _).instLen.toNat = written.1.length from length,
              show (fn.movedTo front.length _).instStart.toNat = front.length from start]
            simp only [List.length_append]
            omega
          · rw [show (fn.movedTo front.length _).instLen.toNat = written.1.length from length, isSplice,
              length_splice]
        | succ k =>
          obtain ⟨fn'', cells', atNew, rewrites⟩ := rewrites k fn' atPlace
          rw [List.append_assoc] at rewrites
          exact ⟨fn'', cells', atNew, rewrites⟩

end

section

/-- The second program has the entries of the first and functions for its functions. -/
structure MirProgram.Grown (program program' : MirProgram) : Prop where
  tables : program.tables.Extends program'.tables
  locals : program'.locals = program.locals
  funcs : program'.funcs.length = program.funcs.length

/-- The second program has at least the entries of the first. -/
structure MirProgram.Includes (program program' : MirProgram) : Prop where
  tables : program.tables.Extends program'.tables
  locals : program.locals <+: program'.locals
  funcs : program.funcs.length ≤ program'.funcs.length

variable {program program' : MirProgram} {fn fn' : MirFunction}

theorem MirProgram.Grown.includes (grown : program.Grown program') : program.Includes program' :=
  ⟨grown.tables, grown.locals ▸ List.prefix_rfl, Nat.le_of_eq grown.funcs.symm⟩

theorem MirInst.Refers.validate {ins : MirInst} (refers : ins.Refers program'.tables fn) (moved : fn.Moved fn') :
    validateInst program' fn' ins = true := by
  rw [moved]
  unfold MirInst.Refers at refers
  unfold validateInst
  cases op : ins.op <;> rw [op] at refers <;>
    first
    | exact decide_eq_true refers
    | exact refers.elim

theorem getElem?_grown {α : Type} {l l' : List α} (grown : l <+: l') {i : Nat} {a : α} (found : l[i]? = some a) :
    l'[i]? = some a := by
  obtain ⟨rest, rfl⟩ := grown
  rw [List.getElem?_append_left (List.getElem?_eq_some_iff.mp found).1, found]

/-- A test that an entry passed is passed by the same entry of the longer table. -/
theorem any_grown {α : Type} {l l' : List α} (grown : l <+: l') (test : α → Bool) {i : Nat}
    (passed : (l[i]?).any test = true) : (l'[i]?).any test = true := by
  cases found : l[i]? with
  | none =>
    rw [found] at passed
    cases passed
  | some a =>
    rw [getElem?_grown grown found]
    rw [found] at passed
    exact passed

/-- An instruction other than a jump stays valid. -/
theorem MirProgram.Includes.validate (grown : program.Includes program') (moved : fn.Moved fn') {ins ins' : MirInst}
    (sameOp : ins'.op = ins.op) (sameAux : ins'.aux = ins.aux) (straight : ins.isJump = false)
    (valid : validateInst program fn ins = true) : validateInst program' fn' ins' = true := by
  rw [moved]
  unfold validateInst at valid ⊢
  rw [sameOp, sameAux]
  cases op : ins.op <;> rw [op] at valid <;>
    first
    | exact valid
    | exact decide_eq_true (Nat.lt_of_lt_of_le (of_decide_eq_true valid) grown.tables.consts.length_le)
    | exact decide_eq_true (Nat.lt_of_lt_of_le (of_decide_eq_true valid) grown.tables.symbols.length_le)
    | exact decide_eq_true (Nat.lt_of_lt_of_le (of_decide_eq_true valid) grown.tables.types.length_le)
    | exact decide_eq_true (Nat.lt_of_lt_of_le (of_decide_eq_true valid) grown.tables.hosts.length_le)
    | exact decide_eq_true (Nat.lt_of_lt_of_le (of_decide_eq_true valid) grown.tables.fields.length_le)
    | exact decide_eq_true (Nat.lt_of_lt_of_le (of_decide_eq_true valid) grown.funcs)
    | exact any_grown grown.tables.consts _ valid
    | simp [MirInst.isJump, op] at straight

theorem none_iff_of_ite {α : Type} {c : Prop} [Decidable c] {a : α} {rest : Option α} :
    (if c then some a else rest) = none ↔ ¬ c ∧ rest = none := by
  by_cases holds : c
  · rw [if_pos holds]
    exact ⟨fun none => (Option.some_ne_none a none).elim, fun both => absurd holds both.1⟩
  · rw [if_neg holds]
    exact ⟨fun none => ⟨holds, none⟩, And.right⟩

/-- What the checks of a function come to. -/
theorem validateFunction_iff : validateFunction program fn = none ↔
    fn.instStart.toNat + fn.instLen.toNat ≤ program.insts.length ∧
    (fn.localStart.toNat + fn.localCount.toNat ≤ program.locals.length ∧ fn.paramCount ≤ fn.localCount) ∧
    fn.sourceRef.toNat < program.sources.length ∧
    (∀ l ∈ fn.localMeta program, l.typeRef = noTypeRef ∨ l.typeRef.toNat < program.types.length) ∧
    ∀ ins ∈ fn.code program, validateInst program fn ins = true := by
  have types : ¬ ((fn.localMeta program).any fun l =>
      l.typeRef ≠ noTypeRef ∧ program.types.length ≤ l.typeRef.toNat) = true ↔
      ∀ l ∈ fn.localMeta program, l.typeRef = noTypeRef ∨ l.typeRef.toNat < program.types.length := by
    rw [List.any_eq_true, not_exists]
    apply forall_congr'
    intro l
    rw [not_and, decide_eq_true_iff, not_and_or, not_not, Nat.not_le]
  have code : ((fn.code program).find? fun ins => !validateInst program fn ins).map
      (fun ins => mirDiag ins.start ins.stop) = none ↔
      ∀ ins ∈ fn.code program, validateInst program fn ins = true := by
    rw [Option.map_eq_none_iff, List.find?_eq_none]
    apply forall₂_congr
    intro ins _
    rw [Bool.not_eq_true', Bool.not_eq_false]
  rw [validateFunction, none_iff_of_ite, none_iff_of_ite, none_iff_of_ite, none_iff_of_ite, types, code, Nat.not_le]
  refine and_congr ?_ (and_congr ?_ Iff.rfl)
  · omega
  · rw [not_or, not_or, UInt32.not_lt, ← and_assoc]
    refine and_congr ?_ Iff.rfl
    omega

theorem jumpsInside_of_valid (range : (fn.code program).length = fn.instLen.toNat)
    (valid : ∀ ins ∈ fn.code program, validateInst program fn ins = true) : JumpsInside (fn.code program) := by
  intro ins member jump
  rw [range]
  have inside := valid ins member
  unfold validateInst at inside
  rcases of_decide_eq_true jump with op | op
  · rw [op] at inside
    exact UInt32.lt_iff_toNat_lt.mp (of_decide_eq_true inside)
  · rw [op] at inside
    exact UInt32.lt_iff_toNat_lt.mp (of_decide_eq_true inside)

theorem place_lt {cells : List (Cell MirInst)} {k : Nat} (inside : k < cells.length) :
    place cells k < place cells cells.length := by
  have next := place_succ (List.getElem?_eq_getElem inside)
  have order := place_mono cells (show k + 1 ≤ cells.length from inside)
  rw [Cell.size] at next
  omega

variable {pass : AllocPass} {insts : List MirInst} {t : MirTables} {cells : List (Cell MirInst)}

/-- A function that was valid is valid after the pass. -/
theorem AllocPass.Rewrites.validate (rewrites : pass.Rewrites program program'.insts program'.tables fn fn' cells)
    (grown : program.Grown program') (valid : validateFunction program fn = none) :
    validateFunction program' fn' = none := by
  rw [validateFunction_iff] at valid
  obtain ⟨_, locals, source, types, code⟩ := valid
  obtain ⟨t₁, isFunction⟩ := rewrites.spliced
  have jumps := jumpsInside_of_valid rewrites.range code
  have moved := rewrites.moved
  have small : place cells cells.length < UInt32.size := by
    rw [← rewrites.length]
    exact fn'.instLen.toNat_lt_size
  rw [validateFunction_iff]
  refine ⟨rewrites.inside, ?_, ?_, ?_, ?_⟩
  · rw [moved, grown.locals]
    exact locals
  · rw [moved]
    exact Nat.lt_of_lt_of_le source grown.tables.sources.length_le
  · intro l member
    rw [moved, MirFunction.localMeta, grown.locals] at member
    exact (types l member).imp_right fun below => Nat.lt_of_lt_of_le below grown.tables.types.length_le
  · intro ins member
    rw [show fn'.code program' = fn'.codeIn program'.insts from rfl, rewrites.code, splice, List.mem_flatMap] at member
    obtain ⟨cell, inCells, member⟩ := member
    obtain ⟨pc, old, inCode, isCell⟩ := isFunction.of_mem inCells
    rw [Cell.code, List.mem_append, List.mem_cons] at member
    rcases member with inBefore | rfl | inAfter
    · exact (isCell.before.refers inBefore).validate moved
    · have sameOp : cell.inst.op = old.op := by rw [isCell.inst, markedInst_op]
      have sameAux : cell.inst.aux = old.aux := by rw [isCell.inst, markedInst_aux]
      by_cases jump : cell.inst.isJump = true
      · have target : mirJumpForm.target cell.inst = some cell.inst.aux.toNat := if_pos jump
        have inside : cell.inst.aux.toNat < cells.length := by
          rw [sameAux, isFunction.length]
          apply jumps old inCode
          rw [MirInst.isJump, sameOp] at jump
          exact jump
        have below := place_lt inside
        have operand : (UInt32.ofNat (place cells cell.inst.aux.toNat)).toNat = place cells cell.inst.aux.toNat := by
          rw [UInt32.toNat_ofNat', Nat.mod_eq_of_lt (Nat.lt_trans below small)]
        have order : UInt32.ofNat (place cells cell.inst.aux.toNat) < fn'.instLen := by
          rw [UInt32.lt_iff_toNat_lt, operand, rewrites.length]
          exact below
        have same : relocate mirJumpForm cells cell.inst =
            { cell.inst with aux := UInt32.ofNat (place cells cell.inst.aux.toNat) } := by
          rw [relocate, target]
          simp only [inside, if_true]
          rfl
        rw [same]
        unfold validateInst
        rcases of_decide_eq_true jump with op | op
        · simp only [op, order, decide_true]
        · simp only [op, order, decide_true]
      · have none : mirJumpForm.target cell.inst = none := if_neg jump
        have same : relocate mirJumpForm cells cell.inst = cell.inst := by rw [relocate, none]
        rw [same]
        refine grown.includes.validate moved sameOp sameAux ?_ (code old inCode)
        rw [MirInst.isJump, sameOp] at jump
        exact (Bool.not_eq_true _).mp jump
    · exact (isCell.after.refers inAfter).validate moved

end

section

variable {pass : AllocPass} {program program' : MirProgram} {out : Rewritten}

variable (pass program) in
theorem totalExtraLen_extends (funcs : List MirFunction) (t : MirTables) :
    t.Extends (pass.totalExtraLen program funcs t).2 := by
  induction funcs generalizing t with
  | nil => exact .refl t
  | cons fn rest ih => exact (measureFrom_spec _ _ _ _ 0 t).1.trans (ih _)

/-- What a pass comes to: the code as it was, or every function rewritten. -/
theorem rewrite_ok (done : pass.rewrite program = .ok out) : program.tables.Extends out.tables ∧
    (out.insts = program.insts ∧ out.funcs = program.funcs ∨
      Tiled 0 out.funcs out.insts.length ∧ out.funcs.length = program.funcs.length ∧
        ∀ (k : Nat) (fn : MirFunction), program.funcs[k]? = some fn → ∃ fn' cells, out.funcs[k]? = some fn' ∧
          pass.Rewrites program out.insts out.tables fn fn' cells) := by
  have grown := totalExtraLen_extends pass program program.funcs program.tables
  rw [AllocPass.rewrite] at done
  by_cases none : (pass.totalExtraLen program program.funcs program.tables).1 = 0
  · simp only [none, if_true] at done
    cases done
    exact ⟨grown, .inl ⟨rfl, rfl⟩⟩
  · simp only [none, if_false] at done
    by_cases large : UInt32.size ≤
        program.insts.length + (pass.totalExtraLen program program.funcs program.tables).1
    · rw [if_pos large] at done
      cases done
    · rw [if_neg large] at done
      obtain ⟨grown', _, tiled, count, rewrites⟩ := rewriteFuncs_ok
        (show ([] : List MirInst).length + _ < UInt32.size by
          rw [List.length_nil, Nat.zero_add]; exact Nat.lt_of_not_le large) done
      rw [List.length_nil, Nat.zero_add] at tiled
      exact ⟨grown.trans grown', .inr ⟨tiled, count, rewrites⟩⟩

theorem assemble_ok (done : out.assemble program = .ok program') : program'.insts = out.insts ∧
    program'.funcs = out.funcs ∧ program'.tables = out.tables ∧ program'.locals = program.locals := by
  unfold Rewritten.assemble at done
  split at done
  · cases done
    exact ⟨rfl, rfl, rfl, rfl⟩
  · cases done

/-- A program with the same functions, whose code may have been put elsewhere and added to. -/
structure MirProgram.Kept (program program' : MirProgram) : Prop where
  grown : program.Grown program'
  moved : ∀ (k : Nat) (fn : MirFunction), program.funcs[k]? = some fn →
    ∃ fn', program'.funcs[k]? = some fn' ∧ fn.Moved fn'
  valid : validateProgram program = none → validateProgram program' = none
  tiled : Tiled 0 program.funcs program.insts.length → Tiled 0 program'.funcs program'.insts.length

theorem MirFunction.Moved.trans {fn fn' fn'' : MirFunction} (first : fn.Moved fn') (second : fn'.Moved fn'') :
    fn.Moved fn'' := by
  unfold MirFunction.Moved at *
  rw [second, first]

theorem MirProgram.Kept.refl (program : MirProgram) : program.Kept program :=
  ⟨⟨.refl _, rfl, rfl⟩, fun _ fn atPlace => ⟨fn, atPlace, rfl⟩, id, id⟩

theorem MirProgram.Kept.trans {program program' program'' : MirProgram} (first : program.Kept program')
    (second : program'.Kept program'') : program.Kept program'' := by
  refine ⟨⟨first.grown.tables.trans second.grown.tables, second.grown.locals.trans first.grown.locals,
    second.grown.funcs.trans first.grown.funcs⟩, fun k fn atPlace => ?_, second.valid ∘ first.valid,
    second.tiled ∘ first.tiled⟩
  obtain ⟨fn', atPlace', moved⟩ := first.moved k fn atPlace
  obtain ⟨fn'', atPlace'', moved'⟩ := second.moved k fn' atPlace'
  exact ⟨fn'', atPlace'', moved.trans moved'⟩

theorem rewrite_kept (done : pass.rewrite program = .ok out) (assembled : out.assemble program = .ok program') :
    program.Kept program' := by
  obtain ⟨insts, funcs, tables, locals⟩ := assemble_ok assembled
  obtain ⟨extends', same | ⟨tiled, count, rewrites⟩⟩ := rewrite_ok done
  · have grown : program.Grown program' := ⟨tables ▸ extends', locals, by rw [funcs, same.2]⟩
    refine ⟨grown, fun k fn atPlace => ⟨fn, by rw [funcs, same.2]; exact atPlace, rfl⟩, fun valid => ?_, ?_⟩
    · rw [validateProgram, List.findSome?_eq_none_iff] at valid ⊢
      intro fn member
      rw [funcs, same.2] at member
      have old := validateFunction_iff.mp (valid fn member)
      obtain ⟨range, inLocals, source, types, code⟩ := old
      have sameCode : fn.code program' = fn.code program := by rw [MirFunction.code, insts, same.1]; rfl
      refine validateFunction_iff.mpr ⟨by rw [insts, same.1]; exact range, by rw [locals]; exact inLocals,
        Nat.lt_of_lt_of_le source grown.tables.sources.length_le, fun l inMeta => ?_, fun ins inCode => ?_⟩
      · rw [MirFunction.localMeta, locals] at inMeta
        exact (types l inMeta).imp_right fun below => Nat.lt_of_lt_of_le below grown.tables.types.length_le
      · rw [sameCode] at inCode
        by_cases jump : ins.isJump = true
        · have inside := code ins inCode
          unfold validateInst at inside ⊢
          rcases of_decide_eq_true jump with op | op <;> rw [op] at inside ⊢ <;> exact inside
        · exact grown.includes.validate (show fn.Moved fn from rfl) rfl rfl ((Bool.not_eq_true _).mp jump) (code ins inCode)
    · rw [funcs, same.2, insts, same.1]
      exact id
  · have grown : program.Grown program' := ⟨tables ▸ extends', locals, by rw [funcs, count]⟩
    rw [← insts, ← tables] at rewrites
    refine ⟨grown, fun k fn atPlace => ?_, fun valid => ?_, fun _ => by rw [funcs, insts]; exact tiled⟩
    · obtain ⟨fn', cells, atNew, rewritten⟩ := rewrites k fn atPlace
      exact ⟨fn', by rw [funcs]; exact atNew, rewritten.moved⟩
    · rw [validateProgram, List.findSome?_eq_none_iff] at valid ⊢
      intro fn' member
      rw [funcs] at member
      obtain ⟨k, bound, atNew⟩ := List.mem_iff_getElem.mp member
      have inOld : k < program.funcs.length := count ▸ bound
      obtain ⟨fn'', cells, found, rewritten⟩ := rewrites k program.funcs[k] (List.getElem?_eq_getElem inOld)
      rw [List.getElem?_eq_getElem bound, atNew] at found
      cases found
      exact rewritten.validate grown (valid _ (List.getElem_mem inOld))

/-- Whatever passes run one after the other: the program that comes out has the functions of the first, is valid
when that was, and no entry of a table was lost. -/
theorem rewritePasses_kept {passes : List (MirProgram → AllocPass)}
    (done : rewritePasses passes program = .ok program') : program.Kept program' := by
  induction passes generalizing program with
  | nil =>
    cases done
    exact .refl _
  | cons pass rest ih =>
    rw [rewritePasses] at done
    obtain ⟨out, rewritten, done⟩ := Except.of_bind done
    obtain ⟨next, assembled, done⟩ := Except.of_bind done
    exact (rewrite_kept rewritten assembled).trans (ih done)

/-- The new code of a function ends, from the beginning, exactly as the old code does when the code that was inserted
for a place runs along with the instruction it was inserted for. -/
theorem AllocPass.Rewrites.ends_iff {fn fn' : MirFunction} {insts : List MirInst} {t : MirTables}
    {cells : List (Cell MirInst)} (rewrites : pass.Rewrites program insts t fn fn' cells)
    (jumps : JumpsInside (fn.code program)) {σ ρ : Type} (meaning : Meaning mirJumpForm σ ρ) (s : σ) (r : ρ) :
    Steps.Ends (step meaning (fn'.codeIn insts)) (0, s) r ↔ Steps.Ends (fusedStep meaning cells) (0, s) r := by
  obtain ⟨t₁, isFunction⟩ := rewrites.spliced
  have small : place cells cells.length < UInt32.size := by
    rw [← rewrites.length]
    exact fn'.instLen.toNat_lt_size
  rw [rewrites.code]
  exact splice_ends_iff (isFunction.proper jumps small) (Nat.zero_le _) s r

end

section

variable {pass : AllocPass} {program : MirProgram} {fn : MirFunction} {code : List MirInst}

/-- What the pass finds does not depend on the entries that it adds. -/
def AllocPass.Stable (pass : AllocPass) : Prop :=
  ∀ fn code pc t t', (pass.measure fn code pc t).1 = (pass.measure fn code pc t').1

theorem AllocPass.Stable.sites (stable : pass.Stable) (t t' : MirTables) :
    (pass.sites fn code t).1 = (pass.sites fn code t').1 := by
  have run : ∀ places pc t t', (pass.measureFrom fn code places pc t).1 = (pass.measureFrom fn code places pc t').1 := by
    intro places
    induction places with
    | zero => exact fun _ _ _ => rfl
    | succ places ih =>
      intro pc t t'
      rw [AllocPass.measureFrom, AllocPass.measureFrom, stable fn code pc t t', ih]
  exact run code.length 0 t t'

theorem blockAt_stays {sites : List (Option AllocSite)} {place : Option Nat} {room : Nat}
    (enough : countOf sites place ≤ room) (t : MirTables) :
    pass.blockAt fn code sites place room t ≠ .error .outside := by
  cases place with
  | none => exact fun stop => by cases stop
  | some pc =>
    have fits : ¬ room < countAt sites pc := Nat.not_lt_of_le enough
    rw [AllocPass.blockAt, AllocPass.block, if_neg fits]
    split
    · exact fun stop => by cases stop
    · split
      · exact fun stop => by cases stop
      · split <;> exact fun stop => by cases stop

theorem Except.error_of_bind {ε α β : Type} {x : Except ε α} {f : α → Except ε β} {e : ε}
    (stop : x >>= f = .error e) : x = .error e ∨ ∃ a, x = .ok a ∧ f a = .error e := by
  cases x with
  | error e' => exact .inl (congrArg Except.error (Except.error.inj (show (Except.error e' : Except ε β) = _ from stop)))
  | ok a => exact .inr ⟨a, rfl, stop⟩

theorem rewriteFrom_stays {sites : List (Option AllocSite)} {insts : List MirInst} {pc room : Nat} {t : MirTables}
    (enough : insts.length + ((List.range' pc insts.length).map (pass.insertCount sites)).sum ≤ room) :
    pass.rewriteFrom fn code sites insts pc room t ≠ .error .outside := by
  induction insts generalizing pc room t with
  | nil => exact fun stop => by cases stop
  | cons ins rest ih =>
    rw [List.length_cons, List.range'_succ, List.map_cons, List.sum_cons, AllocPass.insertCount] at enough
    rw [AllocPass.rewriteFrom]
    intro stop
    rcases Except.error_of_bind stop with stop | ⟨before, beforeDone, stop⟩
    · exact blockAt_stays (by omega) t stop
    · have lengthBefore := (blockAt_ok beforeDone).2.2.length
      have room' : ¬ room ≤ before.1.length := by omega
      simp only [room', if_false] at stop
      rcases Except.error_of_bind stop with stop | ⟨after, afterDone, stop⟩
      · exact blockAt_stays (by omega) _ stop
      · have lengthAfter := (blockAt_ok afterDone).2.2.length
        rcases Except.error_of_bind stop with stop | ⟨more, _, stop⟩
        · exact ih (by omega) stop
        · cases stop

theorem rewriteFuncs_stays (stable : pass.Stable) {funcs : List MirFunction} {start room : Nat} {t : MirTables}
    (t₀ : MirTables)
    (ranges : ∀ fn ∈ funcs, (fn.code program).length = fn.instLen.toNat)
    (enough : (funcs.map fun fn => fn.instLen.toNat).sum + (pass.totalExtraLen program funcs t₀).1 ≤ room) :
    pass.rewriteFuncs program funcs start room t ≠ .error .outside := by
  induction funcs generalizing start room t t₀ with
  | nil => exact fun stop => by cases stop
  | cons fn rest ih =>
    have range := ranges fn (List.mem_cons_self ..)
    have found : (pass.sites fn (fn.code program) t).1 = (pass.sites fn (fn.code program) t₀).1 := stable.sites t t₀
    have total : (pass.totalExtraLen program (fn :: rest) t₀).1 = extraLen (pass.sites fn (fn.code program) t).1 +
        (pass.totalExtraLen program rest (pass.sites fn (fn.code program) t₀).2).1 := by
      rw [AllocPass.totalExtraLen, found]
    have counted := sum_insertCount pass fn (fn.code program) t
    rw [List.range_eq_range'] at counted
    rw [List.map_cons, List.sum_cons, total] at enough
    rw [AllocPass.rewriteFuncs]
    intro stop
    simp only [ne_eq, range, not_true_eq_false, if_false] at stop
    rcases Except.error_of_bind stop with stop | ⟨out, outDone, stop⟩
    · exact rewriteFrom_stays (by omega) stop
    · rcases Except.error_of_bind stop with stop | ⟨later, _, stop⟩
      · have length : out.1.length = fn.instLen.toNat + extraLen (pass.sites fn (fn.code program) t).1 := by
          rw [length_rewriteFrom outDone, range]
        exact ih (pass.sites fn (fn.code program) t₀).2 (fun fn member => ranges fn (List.mem_cons_of_mem _ member))
          (by omega) stop
      · cases stop

theorem Tiled.sum {start stop : Nat} {funcs : List MirFunction} (tiled : Tiled start funcs stop) :
    start + (funcs.map fun fn => fn.instLen.toNat).sum = stop := by
  induction funcs generalizing start with
  | nil => exact tiled
  | cons fn rest ih =>
    rw [List.map_cons, List.sum_cons, ← Nat.add_assoc]
    exact ih tiled.2

/-- Over functions that lie one behind the other, a pass that counts the same twice writes no instruction outside the
array it asked for. -/
theorem rewrite_stays (stable : pass.Stable) (tiled : Tiled 0 program.funcs program.insts.length) :
    pass.rewrite program ≠ .error .outside := by
  have ranges : ∀ fn ∈ program.funcs, (fn.code program).length = fn.instLen.toNat := by
    intro fn member
    have range := tiled.range.2 fn member
    rw [MirFunction.code, List.length_take, List.length_drop]
    omega
  have sum := tiled.sum
  intro stop
  rw [AllocPass.rewrite] at stop
  by_cases none : (pass.totalExtraLen program program.funcs program.tables).1 = 0
  · simp only [none, if_true] at stop
    cases stop
  · simp only [none, if_false] at stop
    by_cases large : UInt32.size ≤
        program.insts.length + (pass.totalExtraLen program program.funcs program.tables).1
    · rw [if_pos large] at stop
      cases stop
    · rw [if_neg large] at stop
      exact rewriteFuncs_stays stable program.tables ranges (by omega) stop

end

end HopHop
