import HopHop.ParserQuietRun
import HopHop.ParserTypeParams
import HopHop.ParserDeclTree

namespace HopHop

open Prog

/-! What of a speculative attempt is left behind when it is given up. -/

/-- The state a parser was in: the same place, the same nodes with the same links, and the same diagnostic. -/
structure Restored (s s' : ParseState) : Prop where
  pos : s'.pos = s.pos
  nodes : s'.nodes = s.nodes
  diag : s'.diag = s.diag

namespace Parser

variable {p : Parser}

theorem afterNames_behind {room i j : Nat} (found : p.afterNames room i = some j) : i < j := by
  induction room generalizing i with
  | zero => cases found
  | succ room ih =>
    rw [afterNames] at found
    split_ifs at found
    · have := ih found
      omega
    · cases found
      omega

/-- A list of type parameters that is given up leaves a diagnostic where names have no bracket behind them. -/
theorem parseTypeParamList_restored {ownerNode : Nat} {s s' : ParseState} (linked : Linked s.nodes)
    (owner : ownerNode < s.nodes.length) (bracket : (p.peekAt s.pos).kind = .LBRACK)
    (run : p.parseTypeParamList ownerNode s = .ok () s') (back : s'.pos = s.pos) :
    Restored s s' ↔ ∀ i, p.afterNames p.rounds (s.pos + 1) = some i → s.diag = p.openList i := by
  rcases parseTypeParamList_run run with ⟨other, -⟩ | ⟨-, last, s₁, parsed, ended, looped, rest⟩
  · exact absurd bracket other
  have place := lastChild_run linked owner ended
  have hanging := typeParams_hanging (s := { s with pos := s.pos + 1 }) place (.inl rfl) looped
  obtain ⟨same, names⟩ := typeParams_run looped
  dsimp only at same names
  have abandoned : ¬(parsed = true ∧ (p.peekAt s₁.pos).kind = .RBRACK) := by
    rintro ⟨rfl, rbrack⟩
    rw [if_pos ⟨rfl, rbrack⟩] at rest
    have behind := afterNames_behind names
    omega
  rw [if_neg abandoned] at rest
  obtain ⟨-, nodes, diag⟩ := rest
  rw [relink_hanging place hanging] at nodes
  rw [names]
  cases parsed with
  | false =>
    rw [if_neg Bool.false_ne_true] at diag
    exact ⟨fun _ _ => nofun, fun _ => ⟨back, nodes, diag.trans same⟩⟩
  | true =>
    rw [if_pos rfl] at diag
    refine ⟨fun restored i here => ?_, fun clean => ⟨back, nodes, ?_⟩⟩
    · cases here
      exact restored.diag.symm.trans diag
    · exact diag.trans (clean s₁.pos rfl).symm

section

variable {s s' : ParseState} (ends : p.EndsWithEof) (inside : s.pos < p.tokLen)

/-- Going back to a state whose nodes are all kept gives that state again. -/
theorem rewind_restored {saved t t' : ParseState} (kept : Keeps saved.nodes t)
    (run : p.rewind saved saved.diag t = .ok () t') : Restored saved t' := by
  cases run
  exact ⟨rfl, Kept.take kept, rfl⟩

include ends inside

/-- The productions of a parser end as they should at every token, also at the first one. -/
theorem enterAny_closed (production : Production) (starts : production.StartsAt (p.tokAt s.pos).kind) :
    Closed p production.level (p.enterAny production) s :=
  production_closed ends inside (enterFor_good ends p.tokLen (by omega)) production starts

theorem tryParseFnTypeNamedParamGroup_restored {fnTypeNode : Nat}
    (run : p.tryParseFnTypeNamedParamGroup p.enterAny fnTypeNode s = .ok false s') : Restored s s' := by
  obtain ⟨saved, s₀, read, run₀⟩ := bind_eq_ok.mp run
  cases read
  obtain ⟨named, s₁, looked, run₁⟩ := bind_eq_ok.mp run₀
  cases looked
  split_ifs at run₁
  · obtain ⟨group, s₂, tried, run₂⟩ := bind_eq_ok.mp run₁
    have spec := parseNamedGroup_spec (Mid.start 0 ends inside) (enterAny_good ends) (Nat.zero_le _)
    rw [wp, tried] at spec
    cases group with
    | none =>
      obtain ⟨_, s₃, back, done⟩ := bind_eq_ok.mp run₂
      cases done
      exact rewind_restored spec back
    | some group =>
      obtain ⟨_, s₃, added, done⟩ := bind_eq_ok.mp run₂
      cases done
  · cases run₁
    exact ⟨rfl, rfl, rfl⟩

theorem parseResultGroup_restored (run : p.parseResultGroup p.enterAny s = .ok none s') : Restored s s' := by
  obtain ⟨named, s₀, looked, run₀⟩ := bind_eq_ok.mp run
  cases looked
  split_ifs at run₀
  · obtain ⟨saved, s₀, read, run₁⟩ := bind_eq_ok.mp run₀
    cases read
    obtain ⟨nameCount, s₁, names, run₂⟩ := bind_eq_ok.mp run₁
    have spec := resultNames_spec (Mid.start 0 ends inside)
    rw [wp, names] at spec
    obtain ⟨pos, mid, -⟩ := spec
    obtain ⟨t, s₂, looked, run₃⟩ := bind_eq_ok.mp run₂
    cases looked
    split_ifs at run₃
    · obtain ⟨r, s₃, tried, run₄⟩ := bind_eq_ok.mp run₃
      cases r with
      | some groupType => cases run₄
      | none =>
        obtain ⟨_, s₄, back, done⟩ := bind_eq_ok.mp run₄
        cases done
        rcases attempt_eq_ok tried with ⟨_, some, -⟩ | ⟨-, failed⟩
        · cases some
        · have type := enterAny_closed ends (mid.here ▸ mid.inside) .type trivial
          rw [Closed, wp, failed] at type
          exact rewind_restored (mid.keeps.trans type) back
    · obtain ⟨_, s₄, back, done⟩ := bind_eq_ok.mp run₃
      cases done
      exact rewind_restored mid.keeps back
  · cases run₀
    exact ⟨rfl, rfl, rfl⟩

theorem parseTypedLiteral_restored (run : p.parseTypedLiteral p.enterAny s = .ok none s') : Restored s s' := by
  obtain ⟨saved, s₀, read, run₀⟩ := bind_eq_ok.mp run
  cases read
  obtain ⟨r, s₁, tried, run₁⟩ := bind_eq_ok.mp run₀
  have name : Closed p 0 (p.parseTypeName p.enterAny) s :=
    parseTypeName_closed ends inside ((enterAny_good ends).mono (Nat.zero_le _))
  cases r with
  | none =>
    obtain ⟨_, s₂, back, done⟩ := bind_eq_ok.mp run₁
    cases done
    rcases attempt_eq_ok tried with ⟨_, some, -⟩ | ⟨-, failed⟩
    · cases some
    · rw [Closed, wp, failed] at name
      exact rewind_restored name back
  | some typeNode =>
    rcases attempt_eq_ok tried with ⟨_, some, made⟩ | ⟨none, -⟩
    · cases some
      rw [Closed, wp, made] at name
      obtain ⟨pos, a, b, kids, mid, -⟩ := name
      obtain ⟨seen, s₂, read, run₂⟩ := bind_eq_ok.mp run₁
      cases read
      obtain ⟨t, s₂, looked, run₃⟩ := bind_eq_ok.mp run₂
      cases looked
      split_ifs at run₃
      · obtain ⟨lit, s₃, parsed, done⟩ := bind_eq_ok.mp run₃
        cases done
      · obtain ⟨_, s₃, back, done⟩ := bind_eq_ok.mp run₃
        cases done
        exact rewind_restored mid.keeps back
    · cases none

/-- Going back to the operand of `sizeof` clears the diagnostic. -/
theorem parseSizeofType_restored {s₁ : ParseState} (run : p.parseSizeofType p.enterAny s = .ok none s₁)
    (back : p.rewind s noDiag s₁ = .ok () s') : Restored s s' ↔ s.diag = noDiag := by
  have type := enterAny_closed ends inside .type trivial
  have kept : Keeps s.nodes s₁ := by
    obtain ⟨r, s₂, tried, run₂⟩ := bind_eq_ok.mp run
    rcases attempt_eq_ok tried with ⟨inner, rfl, made⟩ | ⟨rfl, failed⟩
    · rw [Closed, wp, made] at type
      obtain ⟨pos, a, b, kids, mid, -⟩ := type
      obtain ⟨closed, s₃, looked, done⟩ := bind_eq_ok.mp run₂
      cases looked
      split_ifs at done
      · cases done
      · cases done
        exact mid.keeps
    · rw [Closed, wp, failed] at type
      cases run₂
      exact type
  cases back
  exact ⟨fun restored => restored.diag.symm, fun quiet => ⟨rfl, Kept.take kept, quiet.symm⟩⟩

/-- The count of an allocation is tried behind the opening bracket of an array literal. -/
theorem parseAllocCount_restored {s₁ : ParseState} (bracket : (p.peekAt s.pos).kind = .LBRACK)
    (run : attempt (p.parseAllocCount p.enterAny) { s with pos := s.pos + 1 } = .ok none s₁)
    (back : p.rewind s s.diag s₁ = .ok () s') : Restored s s' := by
  rcases attempt_eq_ok run with ⟨_, some, -⟩ | ⟨-, failed⟩
  · cases some
  · rw [peekAt_inside inside] at bracket
    have mid := (Mid.start 0 ends inside).step bracket .lbrack
    have spec := parseAllocCount_spec mid (enterAny_good ends) (Nat.succ_pos _)
    rw [wp, failed] at spec
    exact rewind_restored spec back

theorem parseForInKey_restored {s₁ : ParseState} (run : attempt p.parseForInKey s = .ok none s₁)
    (back : p.restore s s₁ = .ok () s') : Restored s s' := by
  rcases attempt_eq_ok run with ⟨_, some, -⟩ | ⟨-, failed⟩
  · cases some
  · have spec := parseForInKey_spec (Mid.start 0 ends inside)
    rw [wp, failed] at spec
    exact rewind_restored spec back

theorem parseVariantPattern_restored {s₁ : ParseState} (run : p.parseVariantPattern s = .ok none s₁)
    (back : p.restore s s₁ = .ok () s') : Restored s s' := by
  have spec := parseVariantPattern_spec (Mid.start 0 ends inside)
  rw [wp, run] at spec
  exact rewind_restored spec back

end

/-! ### Runs that leave no diagnostic -/

instance (pos : Nat) : Decidable (p.ListLeaks pos) :=
  decidable_of_iff ((p.peekAt pos).kind = .LBRACK ∧
      (p.afterNames p.rounds (pos + 1)).any (fun i => (p.peekAt i).kind ≠ .RBRACK) = true)
    (by simp only [ListLeaks, Option.any_eq_true, decide_eq_true_eq])

instance (pos : Nat) : Decidable (p.GroupLeaks pos) :=
  decidable_of_iff (p.refusesName (p.peekAt pos) = false ∧
      (p.afterRefused p.rounds pos).any (fun i => isTypeStart (p.peekAt i).kind) = true)
    (by simp only [GroupLeaks, Option.any_eq_true])

/-- Every run is clean where no place of the stream holds what would leave a diagnostic. -/
theorem clean_of_stream {α : Type} {m : Parse α} {s : ParseState} (ends : p.EndsWithEof)
    (tight : ∀ pos < p.tokLen, ¬p.ListLeaks pos ∧ ¬p.GroupLeaks pos) : p.Clean m s := by
  have behind {pos : Nat} (outside : p.tokLen ≤ pos) : (p.peekAt pos).kind = .EOF := by
    rw [peekAt, if_pos outside, ends.last]
  have everywhere (pos : Nat) : ¬p.ListLeaks pos ∧ ¬p.GroupLeaks pos := by
    rcases Nat.lt_or_ge pos p.tokLen with before | outside
    · exact tight pos before
    · have stop := behind outside
      refine ⟨fun leaks => ?_, fun leaks => ?_⟩
      · exact absurd (leaks.1.symm.trans stop) (by decide)
      · obtain ⟨_, i, found, _⟩ := leaks
        rw [rounds, afterRefused, stop, if_neg (by decide)] at found
        cases found
  exact ⟨fun _ t _ => (everywhere t.pos).1, fun _ t _ => (everywhere t.pos).2⟩

/-- A file is accepted, in a state that passes a test. -/
def accepts (p : Parser) (test : ParseState → Bool) : Bool :=
  match p.parseFile .start with
  | .ok _ s => test s
  | _ => false

theorem accepts_iff {test : ParseState → Bool} :
    p.accepts test = true ↔ ∃ root s, p.parseFile .start = .ok root s ∧ test s = true := by
  unfold accepts
  cases p.parseFile .start <;> simp

/-- The parser of `type A [*u8 4]`. -/
def pointersAlias : Parser :=
  ⟨bytesOf "type A [*u8 4]", [⟨.TYPE, 0, 4⟩, ⟨.IDENT, 5, 6⟩, ⟨.LBRACK, 7, 8⟩, ⟨.MUL, 8, 9⟩, ⟨.IDENT, 9, 11⟩,
    ⟨.INT, 12, 13⟩, ⟨.RBRACK, 13, 14⟩, ⟨.SEMICOLON, 14, 14⟩, ⟨.EOF, 14, 14⟩], 52⟩

/-- The parser of `type A [i32 4]`. -/
def numbersAlias : Parser :=
  ⟨bytesOf "type A [i32 4]", [⟨.TYPE, 0, 4⟩, ⟨.IDENT, 5, 6⟩, ⟨.LBRACK, 7, 8⟩, ⟨.IDENT, 8, 11⟩, ⟨.INT, 12, 13⟩,
    ⟨.RBRACK, 13, 14⟩, ⟨.SEMICOLON, 14, 14⟩, ⟨.EOF, 14, 14⟩], 48⟩

end Parser

end HopHop
