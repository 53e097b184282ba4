import HopHop.MirStraight

namespace HopHop

/-! The loop of one activation: every backward jump uses up one of the jumps its environment allows, and between
two of them the next instruction only moves towards the end of the code. -/

section

variable {σ : Type} (m : Machine σ) (run : ExecRun σ) (callee : Callee σ)

/-- The activation returns, from this state on, after executing at most this many instructions. -/
def ExecRun.ReturnsWithin (start : Config σ) (bound : Nat) : Prop :=
  ∃ rounds c r, Steps.ReachesIn (runStep m run callee) rounds start c ∧ runStep m run callee c = .halt r ∧
    (if c.pc < run.code.length then rounds + 1 else rounds) ≤ bound

/-- What one instruction does to the position and to the count of backward jumps. -/
inductive ExecRun.Moves (c c' : Config σ) : Prop
  | next (pc : c'.pc = c.pc + 1) (count : c'.backwardJumpCount = c.backwardJumpCount)
  | forward (ahead : c.pc < c'.pc) (inside : c'.pc < run.code.length)
      (count : c'.backwardJumpCount = c.backwardJumpCount)
  | backward (inside : c'.pc < run.code.length) (count : c'.backwardJumpCount = c.backwardJumpCount + 1)
      (allowed : c'.backwardJumpCount ≤ run.env.backwardJumpLimit)

theorem onMem_refuse_ne_ok {α : Type} {env : ExecEnv σ} {ins : MirInst} {reason : String} {c c' : Config σ}
    {a : α} (done : onMem (refuse env ins reason : Exec σ α) c = .ok a c') : False := by
  unfold onMem at done
  split at done
  · rename_i refused
    obtain ⟨_, _, -, stops⟩ := bind_ok refused
    cases stops
  · cases done

/-- A jump goes to its target; a backward one is counted while the limit allows it. -/
theorem jump_spec {ins : MirInst} (limited : run.env.backwardJumpLimit ≠ 0) {c c' : Config σ} {u : Unit}
    (done : jump run ins c = .ok u c') :
    c'.pc = ins.aux.toNat ∧
      (ins.aux.toNat < c.pc ∧ c'.backwardJumpCount = c.backwardJumpCount + 1 ∧
          c'.backwardJumpCount ≤ run.env.backwardJumpLimit ∨
        c.pc ≤ ins.aux.toNat ∧ c'.backwardJumpCount = c.backwardJumpCount) := by
  unfold jump at done
  obtain ⟨_, _, got, done⟩ := bind_ok done
  cases got
  by_cases back : ins.aux.toNat < c.pc
  · rw [if_pos ⟨limited, back⟩] at done
    obtain ⟨_, _, stored, done⟩ := bind_ok done
    cases stored
    by_cases beyond : run.env.backwardJumpLimit < c.backwardJumpCount + 1
    · rw [if_pos beyond] at done
      obtain ⟨_, _, refused, -⟩ := bind_ok done
      exact (onMem_refuse_ne_ok refused).elim
    · rw [if_neg beyond] at done
      cases done
      exact ⟨rfl, .inl ⟨back, rfl, UInt32.not_lt.mp beyond⟩⟩
  · rw [if_neg fun both => back both.2] at done
    cases done
    exact ⟨rfl, .inr ⟨Nat.le_of_not_lt back, rfl⟩⟩

/-- A jump within the code moves the activation. -/
theorem jump_moves {ins : MirInst} (limited : run.env.backwardJumpLimit ≠ 0) {c mid c' : Config σ} {u : Unit}
    (advanced : mid.pc = c.pc + 1) (same : mid.backwardJumpCount = c.backwardJumpCount)
    (inside : ins.aux.toNat < run.code.length) (done : jump run ins mid = .ok u c') : run.Moves c c' := by
  obtain ⟨target, ⟨-, count, allowed⟩ | ⟨ahead, count⟩⟩ := jump_spec run limited done
  · rw [same] at count
    exact .backward (by omega) count allowed
  · rw [same] at count
    exact .forward (by omega) (by omega) count

theorem SamePath.moves {α : Type} {x : Frame σ α} (straight : SamePath x) {c mid c' : Config σ} {a : α}
    (advanced : mid.pc = c.pc + 1) (same : mid.backwardJumpCount = c.backwardJumpCount)
    (done : x mid = .ok a c') : run.Moves c c' := by
  obtain ⟨pc, count⟩ := straight mid a c' done
  exact .next (pc.trans advanced) (count.trans same)

theorem guardJump_spec {ins : MirInst} {c c' : Config σ} {u : Unit} (done : guardJump run ins c = .ok u c') :
    ins.aux.toNat < run.code.length ∧ c' = c := by
  unfold guardJump at done
  split at done
  · cases done
  · rename_i inside
    cases done
    exact ⟨Nat.lt_of_not_le inside, rfl⟩

theorem execOp_moves (limited : run.env.backwardJumpLimit ≠ 0) {ins : MirInst} {c mid c' : Config σ} {u : Unit}
    (advanced : mid.pc = c.pc + 1) (same : mid.backwardJumpCount = c.backwardJumpCount)
    (done : execOp m run callee ins mid = .ok u c') : run.Moves c c' := by
  by_cases isJump : ins.op = .JUMP
  · simp only [execOp, isJump] at done
    obtain ⟨_, _, guarded, jumped⟩ := bind_ok done
    obtain ⟨inside, rfl⟩ := guardJump_spec run guarded
    exact jump_moves run limited advanced same inside jumped
  · by_cases isBranch : ins.op = .JUMP_IF_FALSE
    · simp only [execOp, isBranch] at done
      obtain ⟨_, _, guarded, rest⟩ := bind_ok done
      obtain ⟨inside, rfl⟩ := guardJump_spec run guarded
      obtain ⟨cond, c₁, popped, rest⟩ := bind_ok rest
      obtain ⟨b, c₂, asked, rest⟩ := bind_ok rest
      obtain ⟨pc₁, count₁⟩ := SamePath.pop _ _ _ popped
      obtain ⟨pc₂, count₂⟩ := (boolOf_straight cond).path _ _ _ asked
      have advanced' : c₂.pc = c.pc + 1 := pc₂.trans (pc₁.trans advanced)
      have same' : c₂.backwardJumpCount = c.backwardJumpCount := count₂.trans (count₁.trans same)
      cases b with
      | false => exact jump_moves run limited advanced' same' inside rest
      | true =>
        cases rest
        exact .next advanced' same'
    · exact (execOp_samePath m run callee isJump isBranch).moves run advanced same done

/-- A round that goes on moves the activation, and only from an instruction of the code. -/
theorem runStep_moves (limited : run.env.backwardJumpLimit ≠ 0) {c c' : Config σ}
    (round : runStep m run callee c = .run c') : c.pc < run.code.length ∧ run.Moves c c' := by
  unfold runStep at round
  split at round
  · cases round
  · rename_i inside
    refine ⟨Nat.lt_of_not_le inside, ?_⟩
    split at round
    · rename_i after done
      cases round
      obtain ⟨ins, mid, fetched, done⟩ := bind_ok done
      obtain ⟨advanced, same⟩ := SamePath.onMem _ _ _ _ fetched
      unfold execInst at done
      split at done
      · obtain ⟨v, _, _, returned⟩ := bind_ok (x := returnValue run ins) done
        cases returned
      · split at done
        · cases done
        · obtain ⟨_, _, executed, rest⟩ := bind_ok done
          cases rest
          exact execOp_moves m run callee limited advanced same executed
    · cases round
    · cases round

/-- How many instructions the activation may still execute: the code once for each backward jump that is left,
and the rest of it. -/
def ExecRun.budget (c : Config σ) : Nat :=
  (run.env.backwardJumpLimit.toNat - c.backwardJumpCount.toNat) * run.code.length + (run.code.length - c.pc)

/-- The count of backward jumps is within the limit. -/
def ExecRun.Within (c : Config σ) : Prop := c.backwardJumpCount.toNat ≤ run.env.backwardJumpLimit.toNat

/-- A move lowers the budget, unless the count of backward jumps can run over. -/
theorem ExecRun.Moves.lowers {c c' : Config σ} (counts : run.env.backwardJumpLimit.toNat < 2 ^ 32 - 1)
    (within : run.Within c) (inside : c.pc < run.code.length) (moves : run.Moves c c') :
    run.Within c' ∧ run.budget c' < run.budget c := by
  unfold Within at within ⊢
  unfold budget
  cases moves with
  | next pc count =>
    rw [pc, count]
    exact ⟨within, by omega⟩
  | forward ahead _ count =>
    rw [count]
    exact ⟨within, by omega⟩
  | backward inside' count allowed =>
    have next : c'.backwardJumpCount.toNat = c.backwardJumpCount.toNat + 1 := by
      rw [count, UInt32.toNat_add, UInt32.toNat_one]
      exact Nat.mod_eq_of_lt (by omega)
    have below : c'.backwardJumpCount.toNat ≤ run.env.backwardJumpLimit.toNat := UInt32.le_iff_toNat_le.mp allowed
    have used : run.env.backwardJumpLimit.toNat - c.backwardJumpCount.toNat =
        run.env.backwardJumpLimit.toNat - c'.backwardJumpCount.toNat + 1 := by omega
    rw [used, Nat.add_mul, Nat.one_mul]
    exact ⟨below, by omega⟩

/-- With a limit the count can go beyond, an activation executes at most so many times the code as it may jump
backward, and the code once more. -/
theorem returnsWithin_of_counts (limited : run.env.backwardJumpLimit ≠ 0)
    (counts : run.env.backwardJumpLimit.toNat < 2 ^ 32 - 1) (mem : σ) :
    run.ReturnsWithin m callee (startConfig mem)
      ((run.env.backwardJumpLimit.toNat + 1) * run.code.length) := by
  have lowers : ∀ c c', run.Within c → runStep m run callee c = .run c' →
      run.Within c' ∧ run.budget c' < run.budget c := by
    intro c c' within round
    obtain ⟨inside, moves⟩ := runStep_moves m run callee limited round
    exact moves.lowers run counts within inside
  have start : run.Within (startConfig mem) := Nat.zero_le _
  obtain ⟨rounds, c, r, reach, last, -, enough⟩ := Steps.ReachesIn.of_measure lowers start
  refine ⟨rounds, c, r, reach, last, ?_⟩
  have whole : run.budget (startConfig mem) =
      (run.env.backwardJumpLimit.toNat + 1) * run.code.length := by
    simp only [ExecRun.budget, startConfig, UInt32.toNat_zero, Nat.sub_zero, Nat.add_mul, Nat.one_mul]
  rw [← whole]
  split
  · have remains : run.code.length - c.pc ≤ run.budget c := Nat.le_add_left _ _
    omega
  · omega

end

end HopHop
