import HopHop.MirAllocRewrite

namespace HopHop

/-! What a pass over the allocations makes of a function: its instructions with the code for their places between
them, and the targets of its jumps moved along. -/

open CodeSplice

theorem MirTables.Extends.refl (t : MirTables) : t.Extends t :=
  ⟨List.prefix_rfl, List.prefix_rfl, List.prefix_rfl, List.prefix_rfl, List.prefix_rfl, List.prefix_rfl⟩

theorem MirTables.Extends.trans {t t' t'' : MirTables} (first : t.Extends t') (second : t'.Extends t'') :
    t.Extends t'' :=
  ⟨first.consts.trans second.consts, first.sources.trans second.sources, first.fields.trans second.fields,
    first.types.trans second.types, first.hosts.trans second.hosts, first.symbols.trans second.symbols⟩

theorem MirInst.Refers.extend {t t' : MirTables} {fn : MirFunction} {ins : MirInst} (refers : ins.Refers t fn)
    (grown : t.Extends t') : ins.Refers t' fn := by
  unfold MirInst.Refers at refers ⊢
  cases op : ins.op <;> rw [op] at refers <;>
    first
    | exact Nat.lt_of_lt_of_le refers grown.consts.length_le
    | exact Nat.lt_of_lt_of_le refers grown.symbols.length_le
    | exact Nat.lt_of_lt_of_le refers grown.types.length_le
    | exact Nat.lt_of_lt_of_le refers grown.hosts.length_le
    | exact Nat.lt_of_lt_of_le refers grown.fields.length_le
    | exact refers

theorem MirInst.Refers.straight {t : MirTables} {fn : MirFunction} {ins : MirInst} (refers : ins.Refers t fn) :
    ins.isJump = false := by
  unfold MirInst.Refers at refers
  cases op : ins.op <;> rw [op] at refers <;> first | exact refers.elim | simp [MirInst.isJump, op]

/-- Jumps name their targets in the operand, a 32-bit number. -/
def mirJumpForm : JumpForm MirInst where
  fits := fun t => t < UInt32.size
  target := fun ins => if ins.isJump then some ins.aux.toNat else none
  setTarget := fun t ins => { ins with aux := UInt32.ofNat t }
  target_setTarget := by
    intro ins t t' fits jumps
    by_cases jump : ins.isJump = true
    · have same : MirInst.isJump { ins with aux := UInt32.ofNat t' } = true := jump
      have operand : (UInt32.ofNat t').toNat = t' := by rw [UInt32.toNat_ofNat', Nat.mod_eq_of_lt fits]
      rw [if_pos same, operand]
    · rw [if_neg jump] at jumps
      cases jumps

theorem Except.of_bind {ε α β : Type} {x : Except ε α} {f : α → Except ε β} {b : β} (done : x >>= f = .ok b) :
    ∃ a, x = .ok a ∧ f a = .ok b := by
  cases x with
  | error e => cases done
  | ok a => exact ⟨a, rfl, done⟩

section

variable {pass : AllocPass} {fn : MirFunction} {code : List MirInst} {sites : List (Option AllocSite)}

/-- The code that stands for a place, all of whose entries are in the tables. -/
structure AllocPass.IsBlock (pass : AllocPass) (fn : MirFunction) (code : List MirInst)
    (sites : List (Option AllocSite)) (t : MirTables) (place : Option Nat) (block : List MirInst) : Prop where
  length : block.length = countOf sites place
  emitted : block = [] ∨ ∃ pc t₁ t₂, place = some pc ∧ pass.emit fn code pc t₁ = some (block, t₂) ∧ t₂.Extends t

/-- An instruction of the function with the code around it. -/
structure AllocPass.IsCell (pass : AllocPass) (fn : MirFunction) (code : List MirInst)
    (sites : List (Option AllocSite)) (t : MirTables) (pc : Nat) (ins : MirInst) (cell : Cell MirInst) : Prop where
  inst : cell.inst = pass.markedInst sites pc ins
  before : pass.IsBlock fn code sites t (pass.placeBefore pc) cell.before
  after : pass.IsBlock fn code sites t (pass.placeAfter pc) cell.after

theorem AllocPass.IsBlock.extend {t t' : MirTables} {place : Option Nat} {block : List MirInst}
    (isBlock : pass.IsBlock fn code sites t place block) (grown : t.Extends t') :
    pass.IsBlock fn code sites t' place block := by
  refine ⟨isBlock.length, ?_⟩
  rcases isBlock.emitted with none | ⟨pc, t₁, t₂, atPlace, emitted, before⟩
  · exact .inl none
  · exact .inr ⟨pc, t₁, t₂, atPlace, emitted, before.trans grown⟩

theorem AllocPass.IsBlock.refers {t : MirTables} {place : Option Nat} {block : List MirInst}
    (isBlock : pass.IsBlock fn code sites t place block) {ins : MirInst} (member : ins ∈ block) :
    ins.Refers t fn := by
  rcases isBlock.emitted with none | ⟨pc, t₁, t₂, _, emitted, grown⟩
  · rw [none] at member
    cases member
  · exact (pass.refers emitted ins member).extend grown

theorem AllocPass.IsCell.extend {t t' : MirTables} {pc : Nat} {ins : MirInst} {cell : Cell MirInst}
    (isCell : pass.IsCell fn code sites t pc ins cell) (grown : t.Extends t') :
    pass.IsCell fn code sites t' pc ins cell :=
  ⟨isCell.inst, isCell.before.extend grown, isCell.after.extend grown⟩

theorem AllocPass.IsCell.size {t : MirTables} {pc : Nat} {ins : MirInst} {cell : Cell MirInst}
    (isCell : pass.IsCell fn code sites t pc ins cell) : cell.size = pass.insertCount sites pc + 1 := by
  rw [Cell.size, isCell.before.length, isCell.after.length, AllocPass.insertCount]
  omega

theorem blockAt_ok {place : Option Nat} {room : Nat} {t : MirTables} {out : List MirInst × MirTables}
    (done : pass.blockAt fn code sites place room t = .ok out) :
    t.Extends out.2 ∧ out.1.length ≤ room ∧ pass.IsBlock fn code sites out.2 place out.1 := by
  cases place with
  | none =>
    cases done
    exact ⟨.refl t, Nat.zero_le _, rfl, .inl rfl⟩
  | some pc =>
    rw [AllocPass.blockAt, AllocPass.block] at done
    by_cases empty : countAt sites pc = 0
    · rw [if_pos empty] at done
      cases done
      exact ⟨.refl t, Nat.zero_le _, empty.symm, .inl rfl⟩
    · rw [if_neg empty] at done
      by_cases short : room < countAt sites pc
      · rw [if_pos short] at done
        cases done
      · rw [if_neg short] at done
        cases emitted : pass.emit fn code pc t with
        | none =>
          rw [emitted] at done
          cases done
        | some result =>
          obtain ⟨block, t'⟩ := result
          simp only [emitted] at done
          by_cases measured : block.length = countAt sites pc
          · rw [if_pos measured] at done
            cases done
            exact ⟨pass.grows emitted, Nat.le_trans (Nat.le_of_eq measured) (Nat.le_of_not_lt short), measured,
              .inr ⟨pc, t, t', rfl, emitted, .refl t'⟩⟩
          · rw [if_neg measured] at done
            cases done

/-- A function that was written is its cells, one for each instruction, one after the other. -/
theorem rewriteFrom_ok {insts : List MirInst} {pc room : Nat} {t : MirTables} {out : List MirInst × MirTables}
    (done : pass.rewriteFrom fn code sites insts pc room t = .ok out) :
    t.Extends out.2 ∧ out.1.length ≤ room ∧ ∃ cells : List (Cell MirInst), cells.length = insts.length ∧
      out.1 = cells.flatMap (Cell.code (pass.movedInst fn sites)) ∧
      ∀ k ins, insts[k]? = some ins → ∃ cell, cells[k]? = some cell ∧
        pass.IsCell fn code sites out.2 (pc + k) ins cell := by
  induction insts generalizing pc room t out with
  | nil =>
    cases done
    exact ⟨.refl t, Nat.zero_le _, [], rfl, rfl, fun k ins atPlace => by cases atPlace⟩
  | cons ins rest ih =>
    rw [AllocPass.rewriteFrom] at done
    obtain ⟨before, beforeDone, done⟩ := Except.of_bind done
    by_cases full : room ≤ before.1.length
    · simp only [full, if_true] at done
      cases done
    · simp only [full, if_false] at done
      obtain ⟨after, afterDone, done⟩ := Except.of_bind done
      obtain ⟨more, moreDone, done⟩ := Except.of_bind done
      cases done
      obtain ⟨grown₁, _, isBefore⟩ := blockAt_ok beforeDone
      obtain ⟨grown₂, _, isAfter⟩ := blockAt_ok afterDone
      obtain ⟨grown₃, _, cells, length, written, isCells⟩ := ih moreDone
      have short : (before.1 ++ pass.movedInst fn sites (pass.markedInst sites pc ins) :: (after.1 ++ more.1)).length ≤
          room := by
        simp only [List.length_append, List.length_cons]
        omega
      refine ⟨(grown₁.trans grown₂).trans grown₃, short, ⟨before.1, pass.markedInst sites pc ins, after.1⟩ :: cells,
        congrArg Nat.succ length, ?_, fun k ins' atPlace => ?_⟩
      · rw [List.flatMap_cons, Cell.code, List.append_assoc, List.cons_append, ← written]
      · cases k with
        | zero =>
          cases atPlace
          exact ⟨_, rfl, rfl, isBefore.extend (grown₂.trans grown₃), isAfter.extend grown₃⟩
        | succ k =>
          obtain ⟨cell, atCell, isCell⟩ := isCells k ins' atPlace
          rw [Nat.add_right_comm, Nat.add_assoc] at isCell
          exact ⟨cell, atCell, isCell⟩

/-- The cells of a whole function. -/
structure AllocPass.IsFunction (pass : AllocPass) (fn : MirFunction) (code : List MirInst)
    (sites : List (Option AllocSite)) (t : MirTables) (cells : List (Cell MirInst)) : Prop where
  length : cells.length = code.length
  cell : ∀ k ins, code[k]? = some ins → ∃ cell, cells[k]? = some cell ∧ pass.IsCell fn code sites t k ins cell

theorem AllocPass.IsFunction.of_mem {t : MirTables} {cells : List (Cell MirInst)}
    (isFunction : pass.IsFunction fn code sites t cells) {cell : Cell MirInst} (member : cell ∈ cells) :
    ∃ pc ins, ins ∈ code ∧ pass.IsCell fn code sites t pc ins cell := by
  obtain ⟨k, bound, atPlace⟩ := List.mem_iff_getElem.mp member
  have inCode : k < code.length := isFunction.length ▸ bound
  obtain ⟨cell', atCell, isCell⟩ := isFunction.cell k code[k] (List.getElem?_eq_getElem inCode)
  rw [List.getElem?_eq_getElem bound, atPlace] at atCell
  cases atCell
  exact ⟨k, code[k], List.getElem_mem inCode, isCell⟩

theorem AllocPass.IsFunction.place_eq {t : MirTables} {cells : List (Cell MirInst)}
    (isFunction : pass.IsFunction fn code sites t cells) {k : Nat} (within : k ≤ cells.length) :
    place cells k = pass.pcMap sites k := by
  induction k with
  | zero => rfl
  | succ k ih =>
    have inCode : k < code.length := isFunction.length ▸ within
    obtain ⟨cell, atCell, isCell⟩ := isFunction.cell k code[k] (List.getElem?_eq_getElem inCode)
    rw [place_succ atCell, ih (Nat.le_of_succ_le within), isCell.size, AllocPass.pcMap, AllocPass.pcMap,
      List.range_succ, List.map_append, List.sum_append, List.map_singleton, List.sum_singleton]
    omega

theorem markedInst_aux (pc : Nat) (ins : MirInst) : (pass.markedInst sites pc ins).aux = ins.aux := by
  unfold AllocPass.markedInst
  split <;> rfl

theorem markedInst_op (pc : Nat) (ins : MirInst) : (pass.markedInst sites pc ins).op = ins.op := by
  unfold AllocPass.markedInst
  split <;> rfl

/-- The jumps of the code stay inside. -/
def JumpsInside (code : List MirInst) : Prop := ∀ ins ∈ code, ins.isJump = true → ins.aux.toNat < code.length

theorem AllocPass.IsFunction.proper {t : MirTables} {cells : List (Cell MirInst)}
    (isFunction : pass.IsFunction fn code sites t cells) (jumps : JumpsInside code)
    (fits : place cells cells.length < UInt32.size) : Proper mirJumpForm cells where
  before := by
    intro cell member ins inPiece
    obtain ⟨pc, _, _, isCell⟩ := isFunction.of_mem member
    exact if_neg (by rw [(isCell.before.refers inPiece).straight]; exact Bool.false_ne_true)
  after := by
    intro cell member ins inPiece
    obtain ⟨pc, _, _, isCell⟩ := isFunction.of_mem member
    exact if_neg (by rw [(isCell.after.refers inPiece).straight]; exact Bool.false_ne_true)
  inside := by
    intro cell member target jump
    obtain ⟨pc, ins, inCode, isCell⟩ := isFunction.of_mem member
    by_cases isJump : cell.inst.isJump = true
    · have same : mirJumpForm.target cell.inst = some cell.inst.aux.toNat := if_pos isJump
      rw [same] at jump
      cases jump
      rw [isCell.inst, markedInst_aux, isFunction.length]
      apply jumps ins inCode
      rw [isCell.inst] at isJump
      simpa only [MirInst.isJump, markedInst_op] using isJump
    · have none : mirJumpForm.target cell.inst = none := if_neg isJump
      rw [none] at jump
      cases jump
  fits := fun k inside => Nat.lt_of_le_of_lt (place_mono _ (Nat.le_of_lt inside)) fits

/-- The targets are moved to where the code of the instruction begins. -/
theorem AllocPass.IsFunction.movedInst {t : MirTables} {cells : List (Cell MirInst)}
    (isFunction : pass.IsFunction fn code sites t cells) (range : code.length = fn.instLen.toNat) (ins : MirInst) :
    pass.movedInst fn sites ins = relocate mirJumpForm cells ins := by
  by_cases jump : ins.isJump = true
  · have target : mirJumpForm.target ins = some ins.aux.toNat := if_pos jump
    rw [AllocPass.movedInst, relocate, target]
    by_cases inside : ins.aux < fn.instLen
    · have below : ins.aux.toNat < cells.length := by
        rw [isFunction.length, range]
        exact UInt32.lt_iff_toNat_lt.mp inside
      rw [if_pos ⟨jump, inside⟩, ← isFunction.place_eq (Nat.le_of_lt below)]
      simp only [below, if_true]
      rfl
    · have beyond : ¬ ins.aux.toNat < cells.length := by
        rw [isFunction.length, range]
        exact fun below => inside (UInt32.lt_iff_toNat_lt.mpr below)
      rw [if_neg fun both => inside both.2]
      simp only [beyond, if_false]
  · have none : mirJumpForm.target ins = none := if_neg jump
    rw [AllocPass.movedInst, relocate, none, if_neg fun both => jump both.1]

section

variable (pass fn code) in
theorem measureFrom_spec (places pc : Nat) (t : MirTables) :
    t.Extends (pass.measureFrom fn code places pc t).2 ∧ (pass.measureFrom fn code places pc t).1.length = places ∧
      ∀ k < places, ∃ t', (pass.measureFrom fn code places pc t).1[k]? = some (pass.measure fn code (pc + k) t').1 := by
  induction places generalizing pc t with
  | zero => exact ⟨.refl t, rfl, fun _ below => absurd below (Nat.not_lt_zero _)⟩
  | succ places ih =>
    obtain ⟨grown, length, found⟩ := ih (pc + 1) (pass.measure fn code pc t).2
    refine ⟨(pass.measured fn code pc t).trans grown, congrArg Nat.succ length, fun k below => ?_⟩
    cases k with
    | zero => exact ⟨t, rfl⟩
    | succ k =>
      obtain ⟨t', measured⟩ := found k (Nat.lt_of_succ_lt_succ below)
      rw [Nat.add_right_comm, Nat.add_assoc] at measured
      exact ⟨t', measured⟩

theorem length_sites (t : MirTables) : (pass.sites fn code t).1.length = code.length :=
  (measureFrom_spec pass fn code code.length 0 t).2.1

variable (pass fn code) in
/-- The site at a place is what the pass finds there. -/
theorem siteAt_sites (t : MirTables) {pc : Nat} (inside : pc < code.length) :
    ∃ t', siteAt (pass.sites fn code t).1 pc = (pass.measure fn code pc t').1 := by
  obtain ⟨t', found⟩ := (measureFrom_spec pass fn code code.length 0 t).2.2 pc inside
  rw [Nat.zero_add] at found
  exact ⟨t', by rw [siteAt, AllocPass.sites, found, Option.join_some]⟩

/-- The code behind an instruction belongs to a place that has a next instruction. -/
theorem countAt_last (t : MirTables) (after : pass.after = true) {pc : Nat} (last : code.length ≤ pc + 1) :
    countAt (pass.sites fn code t).1 pc = 0 := by
  by_cases inside : pc < code.length
  · obtain ⟨t', found⟩ := siteAt_sites pass fn code t inside
    cases measured : (pass.measure fn code pc t').1 with
    | none => rw [countAt, found, measured, Option.map_none, Option.getD_none]
    | some site =>
      have next := pass.inside after (show (pass.measure fn code pc t').1.isSome = true by rw [measured]; rfl)
      omega
  · have outside : (pass.sites fn code t).1[pc]? = none :=
      List.getElem?_eq_none (Nat.le_trans (Nat.le_of_eq (length_sites t)) (Nat.le_of_not_lt inside))
    rw [countAt, siteAt, outside]
    rfl

variable (pass fn code) in
/-- As many instructions go in as were counted. -/
theorem sum_insertCount (t : MirTables) :
    ((List.range code.length).map (pass.insertCount (pass.sites fn code t).1)).sum =
      extraLen (pass.sites fn code t).1 := by
  rw [extraLen, length_sites]
  cases after : pass.after with
  | false =>
    congr 1
    apply List.map_congr_left
    intro pc _
    simp [AllocPass.insertCount, AllocPass.placeBefore, AllocPass.placeAfter, after, countOf]
  | true =>
    have shifted : ∀ n, ((List.range (n + 1)).map (pass.insertCount (pass.sites fn code t).1)).sum =
        ((List.range n).map (countAt (pass.sites fn code t).1)).sum := by
      intro n
      induction n with
      | zero => simp [AllocPass.insertCount, AllocPass.placeBefore, AllocPass.placeAfter, after, countOf]
      | succ n ih =>
        rw [List.range_succ, List.map_append, List.sum_append, ih, List.range_succ, List.map_append, List.sum_append]
        simp [AllocPass.insertCount, AllocPass.placeBefore, AllocPass.placeAfter, after, countOf]
    cases length : code.length with
    | zero => rfl
    | succ n =>
      rw [shifted, List.range_succ, List.map_append, List.sum_append, List.map_singleton, List.sum_singleton,
        countAt_last t after (Nat.le_of_eq length), Nat.add_zero]

end

end

end HopHop
