import HopHop.MirExprChunk
import HopHop.MirLowerExpr

namespace HopHop

/-! A program into which an expression is lowered stays one that the validator accepts. -/

/-- The operations of the instructions of an expression. -/
def MirOp.isExpr : MirOp → Bool
  | .PUSH_INT | .PUSH_FLOAT | .PUSH_BOOL | .PUSH_STRING | .PUSH_NULL | .LOAD_IDENT | .TUPLE_MAKE | .SEQ_LEN
  | .STR_CSTR | .CALL | .UNARY | .BINARY | .INDEX | .SLICE_MAKE | .AGG_GET | .CAST | .RETURN => true
  | _ => false

theorem Combine.inst_isExpr (k : Combine) (n : Nat) : (k.inst n).op.isExpr = true := by
  obtain ⟨action, node, start, stop⟩ := k
  cases action <;> rfl

section

variable {ast : Ast} {src : List UInt8}

theorem buildExpr_isExpr {arenaHasRoom : Bool} {treeDepth : Nat} {nodeId : Int} {chunk : List MirInst}
    (built : buildExpr ast src arenaHasRoom treeDepth nodeId = .ok (some chunk)) : ∀ ins ∈ chunk, ins.op.isExpr = true := by
  obtain ⟨c, coded, _, rfl⟩ := buildExpr_some ast src built
  intro ins member
  rcases List.mem_append.mp member with member | member
  · obtain ⟨k, n, rfl⟩ := PostfixCode.code_emits coded ins member
    exact k.inst_isExpr n
  · rw [List.mem_singleton.mp member]
    rfl

end

section

variable {program program' : MirProgram} {fn : MirFunction} {src : List UInt8} {t : MirBuilderTables}

/-- What an instruction of an expression is lowered to names entries that are there. -/
theorem LoweredTo.validate {ins ins' : MirInst} {given : Option MirConst} (lowered : LoweredTo src t ins given ins')
    (isExpr : ins.op.isExpr = true) (consts : program.consts = t.consts.val)
    (symbols : program.symbols.length = t.symbols.val.length) (types : program.types = t.types.val)
    (hosts : program.hosts.length = t.hosts.val.length) (fields : program.fields.length = t.fields.val.length) :
    validateInst program fn ins' = true := by
  have below {α : Type} {l : List α} {i : UInt32} {a : α} (entry : l[i.toNat]? = some a) : i.toNat < l.length :=
    (List.getElem?_eq_some_iff.mp entry).1
  cases lowered with
  | const _ entry =>
    refine decide_eq_true (show _ < program.consts.length from ?_)
    rw [consts]
    exact below entry
  | ident op entry =>
    have inside := below entry
    rw [← symbols] at inside
    unfold validateInst
    rcases op with op | op <;> simp only [op] <;> exact decide_eq_true inside
  | call op _ entry =>
    have inside := below entry
    rw [← symbols] at inside
    unfold validateInst
    simp only [op]
    exact decide_eq_true inside
  | host op _ _ entry =>
    refine decide_eq_true (show _ < program.hosts.length from ?_)
    rw [hosts]
    exact below entry
  | cast op entry _ =>
    have inside := below entry
    rw [← types] at inside
    unfold validateInst
    simp only [op]
    exact decide_eq_true inside
  | field op entry =>
    have inside := below entry
    rw [← fields] at inside
    unfold validateInst
    rcases op with op | op <;> simp only [op] <;> exact decide_eq_true inside
  | same names types fields =>
    unfold validateInst
    cases op : ins.op <;> rw [op] at isExpr names types fields <;>
      first
      | rfl
      | exact absurd isExpr Bool.false_ne_true
      | exact absurd rfl names.1
      | exact absurd rfl names.2.2
      | exact absurd rfl types
      | exact absurd rfl fields.1

theorem LoweredCode.of_mem {code : List (MirInst × Option MirConst)} {out : List MirInst}
    (lowered : LoweredCode src t code out) : ∀ ins ∈ out, ∃ p ∈ code, LoweredTo src t p.1 p.2 ins := by
  induction lowered with
  | nil => exact fun ins member => by cases member
  | @cons p ins' code out one _ ih =>
    intro ins member
    rcases List.mem_cons.mp member with rfl | member
    · exact ⟨p, List.mem_cons_self .., one⟩
    · obtain ⟨q, inCode, lowered⟩ := ih ins member
      exact ⟨q, List.mem_cons_of_mem _ inCode, lowered⟩

/-- A function that was valid is valid in a larger program. -/
theorem MirProgram.Includes.validateFunction (includes : program.Includes program')
    (insts : program.insts <+: program'.insts) (valid : validateFunction program fn = none) :
    validateFunction program' fn = none := by
  rw [validateFunction_iff] at valid ⊢
  obtain ⟨range, ⟨locals, params⟩, source, types, code⟩ := valid
  have sameCode : fn.code program' = fn.code program := by
    obtain ⟨rest, more⟩ := insts
    rw [MirFunction.code, MirFunction.code, ← more, List.drop_append_of_le_length (by omega),
      List.take_append_of_le_length (by rw [List.length_drop]; omega)]
  have sameLocals : fn.localMeta program' = fn.localMeta program := by
    obtain ⟨rest, more⟩ := includes.locals
    rw [MirFunction.localMeta, MirFunction.localMeta, ← more, List.drop_append_of_le_length (by omega),
      List.take_append_of_le_length (by rw [List.length_drop]; omega)]
  rw [sameCode, sameLocals]
  refine ⟨Nat.le_trans range insts.length_le, ⟨Nat.le_trans locals includes.locals.length_le, params⟩,
    Nat.lt_of_lt_of_le source includes.tables.sources.length_le,
    fun l member => (types l member).imp_right fun below => Nat.lt_of_lt_of_le below includes.tables.types.length_le,
    fun ins member => ?_⟩
  by_cases jump : ins.isJump = true
  · have inside := code ins member
    unfold validateInst at inside ⊢
    rcases of_decide_eq_true jump with op | op <;> rw [op] at inside ⊢ <;> exact inside
  · exact includes.validate (show fn.Moved fn from rfl) rfl rfl (Bool.eq_false_iff.mpr jump) (code ins member)

end

section

variable {b b' : MirProgramBuilder} {a : MirBodies} {src : MirSourceRef} {code : List (MirInst × Option MirConst)}
  {sourceRef typeRef : UInt32} {t : MirBuilderTables} {out : List MirInst}

theorem MirBuilderTables.Extends.finish (holds : b.Represents a) (grown : a.tables.Extends t) (after : b'.tables = t) :
    b.finish.tables.Extends b'.finish.tables := by
  rw [← after, ← holds.tables] at grown
  exact ⟨grown.consts, grown.sources.map _, grown.fields.map _, grown.types, grown.hosts.map _, grown.symbols.map _⟩

/-- The program before is part of the program with the function of the expression. -/
theorem MirProgramBuilder.HasExpr.includes (expr : b'.HasExpr a src code sourceRef typeRef t out)
    (holds : b.Represents a) (shut : a.current = none) :
    b.finish.Includes b'.finish ∧ b.finish.insts <+: b'.finish.insts ∧ b'.finish.locals = b.finish.locals ∧
      b'.finish.funcs = b.finish.funcs ++ [(⟨exprFunction sourceRef typeRef, [], out⟩ : MirBody).placed
        b.finish.insts.length b.finish.locals.length] := by
  have all : a.all = a.closed := by rw [MirBodies.all, shut]; exact List.append_nil _
  have all' : (⟨t, a.closed ++ [⟨exprFunction sourceRef typeRef, [], out⟩], none⟩ : MirBodies).all =
      a.closed ++ [⟨exprFunction sourceRef typeRef, [], out⟩] := List.append_nil _
  have insts : b.finish.insts = a.closed.flatMap MirBody.insts := by rw [← all]; exact holds.insts
  have locals : b.finish.locals = a.closed.flatMap MirBody.locals := by rw [← all]; exact holds.locals
  have funcs : b.finish.funcs = layout 0 0 a.closed := by rw [← all]; exact holds.funcs
  have insts' : b'.finish.insts = a.closed.flatMap MirBody.insts ++ out := by
    rw [show b'.finish.insts = _ from expr.holds.insts, MirBodies.insts, all', List.flatMap_append,
      List.flatMap_singleton]
  have locals' : b'.finish.locals = b.finish.locals := by
    rw [show b'.finish.locals = _ from expr.holds.locals, MirBodies.locals, all', List.flatMap_append,
      List.flatMap_singleton, List.append_nil, locals]
  have funcs' : b'.finish.funcs = b.finish.funcs ++ [(⟨exprFunction sourceRef typeRef, [], out⟩ : MirBody).placed
      b.finish.insts.length b.finish.locals.length] := by
    rw [show b'.finish.funcs = _ from expr.holds.funcs, all', layout_concat, funcs, insts, locals]
  refine ⟨⟨expr.grown.finish holds expr.holds.tables, ?_, ?_⟩, ?_, locals', funcs'⟩
  · have before : b.finish.locals <+: b.finish.locals := List.prefix_rfl
    exact locals'.symm ▸ before
  · rw [funcs', List.length_append]
    exact Nat.le_add_right _ _
  · rw [insts, insts']
    exact List.prefix_append _ _

/-- The new function finds its code, and has no locals. -/
theorem MirProgramBuilder.HasExpr.found (expr : b'.HasExpr a src code sourceRef typeRef t out)
    (holds : b.Represents a) (shut : a.current = none) {fn : MirFunction} (isLast : b'.finish.funcs = b.finish.funcs ++ [fn]) :
    fn.code b'.finish = out ∧ fn.localMeta b'.finish = [] ∧
      fn.instStart.toNat + fn.instLen.toNat ≤ b'.finish.insts.length := by
  have all : a.all = a.closed := by rw [MirBodies.all, shut]; exact List.append_nil _
  have count : b.finish.funcs.length = a.closed.length := by
    rw [show b.finish.funcs = _ from holds.funcs, all, length_layout]
  have all' : (⟨t, a.closed ++ [⟨exprFunction sourceRef typeRef, [], out⟩], none⟩ : MirBodies).all =
      a.closed ++ [⟨exprFunction sourceRef typeRef, [], out⟩] := List.append_nil _
  obtain ⟨fn', atPlace, isCode, isLocals, _⟩ := expr.holds.finish.found a.closed.length
    ⟨exprFunction sourceRef typeRef, [], out⟩ (by rw [all', List.getElem?_append_right (Nat.le_refl _), Nat.sub_self]; rfl)
  have range := (expr.holds.finish.tiled.range.2 fn' (List.mem_of_getElem? atPlace)).2
  rw [isLast, ← count, List.getElem?_append_right (Nat.le_refl _), Nat.sub_self] at atPlace
  obtain rfl : fn = fn' := Option.some.inj atPlace
  exact ⟨isCode, isLocals, range⟩

/-- The function of an expression is valid. -/
theorem MirProgramBuilder.HasExpr.valid (expr : b'.HasExpr a src code sourceRef typeRef t out)
    (holds : b.Represents a) (shut : a.current = none) (isExpr : ∀ p ∈ code, p.1.op.isExpr = true)
    (valid : validateProgram b.finish = none) : validateProgram b'.finish = none := by
  obtain ⟨includes, insts, sameLocals, isLast⟩ := expr.includes holds shut
  obtain ⟨isCode, isLocals, range⟩ := expr.found holds shut isLast
  have tables : b'.tables = t := expr.holds.tables
  rw [validateProgram, List.findSome?_eq_none_iff] at valid ⊢
  rw [isLast]
  intro f member
  rcases List.mem_append.mp member with member | member
  · exact includes.validateFunction insts (valid f member)
  · obtain rfl := List.mem_singleton.mp member
    rw [validateFunction_iff, isLocals, isCode]
    refine ⟨range, ⟨?_, UInt32.le_refl _⟩, ?_, fun l inNone => (by cases inNone), fun ins inOut => ?_⟩
    · have start : (UInt32.ofNat b.finish.locals.length).toNat = b.finish.locals.length :=
        toNat_ofNat_below b.locals.property
      rw [sameLocals]
      exact Nat.le_of_eq (congrArg (· + 0) start)
    · obtain ⟨s, entry, _⟩ := expr.source
      rw [show b'.finish.sources = b'.tables.sources.val.map MirSourceRef.src from rfl, List.length_map, tables]
      exact (List.getElem?_eq_some_iff.mp entry).1
    · obtain ⟨p, inCode, lowered⟩ := expr.lowered.of_mem ins inOut
      refine lowered.validate (isExpr p inCode) ?_ ?_ ?_ ?_ ?_
      · rw [← tables]; rfl
      · rw [← tables]; exact List.length_map ..
      · rw [← tables]; rfl
      · rw [← tables]; exact List.length_map ..
      · rw [← tables]; exact List.length_map ..

/-- A builder between two functions, whose program is valid. -/
structure MirProgramBuilder.Sound (b : MirProgramBuilder) : Prop where
  holds : ∃ a : MirBodies, a.current = none ∧ b.Represents a
  valid : validateProgram b.finish = none

/-- Expressions, of any trees and sources, lowered one after the other. -/
inductive LowersExprs {σ : Type} (m : Machine σ) : MirProgramBuilder → MirProgramBuilder → Prop
  | start {b : MirProgramBuilder} : LowersExprs m b b
  | next {b b' b'' : MirProgramBuilder} {ast : Ast} {src : MirSourceRef} {arenaHasRoom : Bool} {treeDepth : Nat}
    {nodeId resultTypeNode : Int} {index : UInt32} {s s' : σ} (before : LowersExprs m b b')
    (lowers : lowerAppendExprAsFunction m ast src arenaHasRoom treeDepth b' nodeId resultTypeNode s =
      .ok (some (index, b'')) s') : LowersExprs m b b''

section

variable {σ : Type} {m : Machine σ}

/-- An expression that is lowered behind sound functions leaves them as they are, and its own is valid. -/
theorem lowerAppendExprAsFunction_sound {b b' : MirProgramBuilder} {ast : Ast} {src : MirSourceRef}
    {arenaHasRoom : Bool} {treeDepth : Nat} {nodeId resultTypeNode : Int} {index : UInt32} {s s' : σ} (sound : b.Sound)
    (lowers : lowerAppendExprAsFunction m ast src arenaHasRoom treeDepth b nodeId resultTypeNode s =
      .ok (some (index, b')) s') :
    b'.Sound ∧ b.finish.Includes b'.finish ∧ b.finish.funcs <+: b'.finish.funcs := by
  obtain ⟨a, shut, holds⟩ := sound.holds
  cases built : buildExpr ast src.src arenaHasRoom treeDepth nodeId with
  | error stop =>
    rw [lowerAppendExprAsFunction, built] at lowers
    cases stop <;> cases lowers
  | ok result =>
    cases result with
    | none =>
      rw [lowerAppendExprAsFunction, built] at lowers
      cases lowers
    | some chunk =>
      have spec := lowerAppendExprAsFunction_spec m ast resultTypeNode built holds shut s
      rw [lowers] at spec
      obtain ⟨given, _, b₁, sourceRef, typeRef, t, out, same, _, expr⟩ := spec.of_ok
      obtain rfl : b' = b₁ := congrArg Prod.snd (Option.some.inj same)
      obtain ⟨includes, _, _, isLast⟩ := expr.includes holds shut
      have isExpr : ∀ p ∈ chunk.zip given, p.1.op.isExpr = true := fun p member =>
        buildExpr_isExpr built p.1 (List.of_mem_zip member).1
      exact ⟨⟨⟨_, rfl, expr.holds⟩, expr.valid holds shut isExpr sound.valid⟩, includes, isLast ▸ List.prefix_append _ _⟩

/-- Whatever expressions are lowered into a sound builder, the program is valid, and the functions that were there are
the first of it. -/
theorem lowersExprs_sound {b b' : MirProgramBuilder} (run : LowersExprs m b b') (sound : b.Sound) :
    b'.Sound ∧ b.finish.funcs <+: b'.finish.funcs := by
  induction run with
  | start => exact ⟨sound, List.prefix_rfl⟩
  | next _ lowers ih =>
    obtain ⟨sound', _, funcs⟩ := lowerAppendExprAsFunction_sound ih.1 lowers
    exact ⟨sound', ih.2.trans funcs⟩

end

end

theorem init_sound : MirProgramBuilder.init.Sound := ⟨⟨.init, rfl, .init⟩, rfl⟩

theorem negatedName_lowered :
    ∃ b, LowersExprs Machine.giving .init b ∧ b.finish.funcs.length = 1 ∧ b.Sound := by
  have lowers : lowerAppendExprAsFunction Machine.giving negatedName ⟨1, bytesOf "-x"⟩ true 2 .init 0 (-1) () =
      .ok (some (0, _)) () := rfl
  have run := LowersExprs.next .start lowers
  exact ⟨_, run, rfl, (lowersExprs_sound run init_sound).1⟩

end HopHop
