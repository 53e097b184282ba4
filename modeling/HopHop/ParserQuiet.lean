import HopHop.ParserNames
import HopHop.ParserDecl

namespace HopHop

set_option synthInstance.maxSize 4000

open Prog

/-! Parts of the parser that leave the diagnostic as it is when they succeed. -/

/-- The diagnostic of a parser that has refused nothing. -/
def noDiag : ParseDiag := ⟨⟨.NONE, 0, 0⟩, 0, 0⟩

namespace Parser

section

variable (p : Parser)

/-- A run that tries no type parameter list and no group of results that would leave a diagnostic. -/
structure Clean {α : Type} (m : Parse α) (s : ParseState) : Prop where
  lists : ∀ ownerNode t, Visits (p.parseTypeParamList ownerNode) t m s → ¬p.ListLeaks t.pos
  groups : ∀ enter t, Visits (p.parseResultGroup enter) t m s → ¬p.GroupLeaks t.pos

instance : Hereditary p.Clean where
  first clean := ⟨fun n t visits => clean.lists n t visits.first, fun e t visits => clean.groups e t visits.first⟩
  next clean ran :=
    ⟨fun n t visits => clean.lists n t (visits.next ran), fun e t visits => clean.groups e t (visits.next ran)⟩
  attempt clean :=
    ⟨fun n t visits => clean.lists n t visits.attempt, fun e t visits => clean.groups e t visits.attempt⟩
  round clean := ⟨fun n t visits => clean.lists n t visits.round, fun e t visits => clean.groups e t visits.round⟩
  later clean ran :=
    ⟨fun n t visits => clean.lists n t (visits.later ran), fun e t visits => clean.groups e t (visits.later ran)⟩

/-- The diagnostic is `d` before and behind a part that succeeds. -/
abbrev Quiet {α : Type} (d : ParseDiag) (m : Parse α) : Prop := Preserving p.Clean (fun s => s.diag = d) m

end

variable {p : Parser} {d : ParseDiag} {α β : Type}

/-! ### Tokens and nodes -/

theorem quiet_modify {f : ParseState → ParseState} (same : ∀ s, (f s).diag = s.diag) : p.Quiet d (Prog.modify f) :=
  .modify fun s quiet => (same s).trans quiet

instance peek_quiet : p.Quiet d p.peek := by dsimp only [peek]; infer_instance

instance : p.Quiet d p.prev := by dsimp only [prev]; infer_instance

instance (kind : TokenKind) : p.Quiet d (p.isAt kind) := by dsimp only [isAt]; infer_instance

instance : p.Quiet d p.advance := quiet_modify fun _ => rfl

instance (kind : TokenKind) : p.Quiet d (p.matchTok kind) := by dsimp only [matchTok]; infer_instance

instance (code : DiagCode) (start stop : Nat) : p.Quiet d (p.failAt (α := α) code start stop) := by
  dsimp only [failAt]; infer_instance

instance (code : DiagCode) : p.Quiet d (p.failWith (α := α) code) := by dsimp only [failWith]; infer_instance

instance (kind : TokenKind) (code : DiagCode) : p.Quiet d (p.expect kind code) := by
  dsimp only [expect]; infer_instance

instance (tok : Token) : p.Quiet d (p.failReservedName (α := α) tok) := by
  dsimp only [failReservedName]; infer_instance

instance (allowHole : Bool) : p.Quiet d (p.expectDeclName allowHole) := by dsimp only [expectDeclName]; infer_instance

instance : p.Quiet d p.expectFnName := by dsimp only [expectFnName]; infer_instance

instance (kind : AstKind) (start stop : Nat) : p.Quiet d (p.newNode kind start stop) := by
  have grown : p.Quiet d (Prog.modify fun s => { s with nodes := s.nodes ++ [AstNode.fresh kind start stop] }) :=
    quiet_modify fun _ => rfl
  dsimp only [newNode]
  infer_instance

instance (id : Nat) : p.Quiet d (p.node id) := by dsimp only [node]; infer_instance

instance (id : Nat) (f : AstNode → AstNode) : p.Quiet d (p.setNode id f) := quiet_modify fun _ => rfl

instance (id : Nat) (tok : Token) : p.Quiet d (p.setData id tok) := by dsimp only [setData]; infer_instance

instance (id stop : Nat) : p.Quiet d (p.setEnd id stop) := by dsimp only [setEnd]; infer_instance

instance (id : Nat) (flags : UInt32) : p.Quiet d (p.addFlags id flags) := by dsimp only [addFlags]; infer_instance

instance (id : Nat) (flags : UInt32) : p.Quiet d (p.setFlags id flags) := by dsimp only [setFlags]; infer_instance

instance (kind : AstKind) (t : Token) : p.Quiet d (p.newLeaf kind t) := by dsimp only [newLeaf]; infer_instance

instance (parent child : Nat) : p.Quiet d (p.addChild parent child) := by
  constructor
  intro s s' _ _ quiet run
  unfold addChild at run
  dsimp only at run
  split at run
  · cases run
    exact quiet
  · split at run
    · cases run
    · cases run
      exact quiet

instance (item : α → Parse α) [∀ a, p.Quiet d (item a)] (a : α) : p.Quiet d (p.commaLoop item a) := by
  dsimp only [commaLoop]; infer_instance

instance (item : α → Parse α) [∀ a, p.Quiet d (item a)] (a : α) : p.Quiet d (p.whileComma item a) := by
  dsimp only [whileComma]; infer_instance

instance (body : α → Parse Unit) [∀ a, p.Quiet d (body a)] (l : List α) : p.Quiet d (forEach body l) := by
  induction l with
  | nil => dsimp only [forEach]; infer_instance
  | cons a rest ih => dsimp only [forEach]; infer_instance

instance (parent : Nat) (items : List Nat) : p.Quiet d (p.addChildren parent items) := by
  dsimp only [addChildren]; infer_instance

instance (parent : Nat) (child : Option Nat) : p.Quiet d (p.addOptionalChild parent child) := by
  cases child <;> (dsimp only [addOptionalChild]; infer_instance)

instance (room nodeId : Nat) : p.Quiet d (p.cloneSubtree room nodeId) := by
  induction room generalizing nodeId with
  | zero => exact ⟨fun _ _ _ _ _ => nofun⟩
  | succ room ih => dsimp only [cloneSubtree]; infer_instance

instance (nodeId : Nat) : p.Quiet d (p.clone nodeId) := by dsimp only [clone]; infer_instance

instance (item : Parse Nat) [p.Quiet d item] (items : List Nat) : p.Quiet d (p.pushItem item items) := by
  dsimp only [pushItem]; infer_instance

/-! ### Types -/

instance (first : Token) : p.Quiet d (p.dottedName first) := by dsimp only [dottedName]; infer_instance

/-- Going back sets the diagnostic, whatever it was. -/
theorem rewind_secures {pre : ParseState → Prop} {saved : ParseState} :
    Secures p.Clean pre (p.rewind saved d) fun _ s => s.diag = d :=
  .modify fun _ _ => rfl

theorem Quiet.bind {m : Parse α} {f : α → Parse β} (first : p.Quiet d m) (next : ∀ a, p.Quiet d (f a)) :
    p.Quiet d (m >>= f) :=
  inferInstance

theorem Quiet.ite {c : Prop} [Decidable c] {m n : Parse α} (yes : p.Quiet d m) (no : p.Quiet d n) :
    p.Quiet d (if c then m else n) :=
  inferInstance

theorem Quiet.loop {body : α → Parse (α ⊕ β)} (round : ∀ a, p.Quiet d (body a)) (room : Nat) (a : α) :
    p.Quiet d (Prog.loop body room a) :=
  inferInstance

/-- The state that a part starts with may be used in the rest, and has the diagnostic. -/
theorem Quiet.of_get {f : ParseState → Parse β} (rest : ∀ saved, saved.diag = d → p.Quiet d (f saved)) :
    p.Quiet d (Prog.get >>= f) :=
  ⟨.get fun saved quiet => (rest saved quiet).keeps.mono (fun _ same => same ▸ quiet) fun _ _ quiet => quiet⟩

/-- A part that is given up keeps the diagnostic when what follows it does, and when giving it up restores it. -/
theorem Quiet.speculate {m : Parse (Option α)} {f : Option α → Parse β}
    (first : Secures p.Clean (fun s => s.diag = d) m fun r s => r ≠ none → s.diag = d)
    (some : ∀ a, p.Quiet d (f (some a)))
    (none : Secures p.Clean (fun _ => True) (f none) fun _ s => s.diag = d) : p.Quiet d (m >>= f) := by
  refine ⟨.bind first fun r => ?_⟩
  cases r with
  | none => exact none.mono (fun _ _ => trivial) fun _ _ quiet => quiet
  | some a => exact (some a).keeps.mono (fun _ quiet => quiet nofun) fun _ _ quiet => quiet

variable {enter : Enter} [∀ production, p.Quiet d (enter production)]

instance : p.Quiet d (p.parseTypeName enter) := by dsimp only [parseTypeName]; infer_instance

/-- The names of a group are taken without a diagnostic when they are a group. -/
theorem groupNames_secures :
    Secures p.Clean (fun s => s.diag = d) p.groupNames fun r s => r ≠ none → s.diag = d := by
  unfold groupNames
  refine .loop (fun _ (s : ParseState) => s.diag = d) (fun nameCount => .bind .attempt fun r => ?_) _ _
  cases r with
  | none => exact .pure fun _ _ none => absurd rfl none
  | some t =>
    have taken : p.Quiet d (do
        if ← p.matchTok .COMMA then
          if ← p.isAt .IDENT then Pure.pure (.inl (nameCount + 1)) else Pure.pure (.inr none)
        else Pure.pure (.inr (some (nameCount + 1))) : Parse (Nat ⊕ Option Nat)) := inferInstance
    refine taken.keeps.mono (fun _ quiet => quiet nofun) fun r _ quiet => ?_
    cases r with
    | inl nameCount => exact quiet
    | inr found => exact fun _ => quiet

theorem parseNamedGroup_secures :
    Secures p.Clean (fun s => s.diag = d) (p.parseNamedGroup enter) fun r s => r ≠ none → s.diag = d := by
  unfold parseNamedGroup
  refine .bind groupNames_secures fun r => ?_
  cases r with
  | none => exact .pure fun _ _ none => absurd rfl none
  | some nameCount =>
    refine .bind (p.peek_quiet.keeps.mono (fun _ quiet => quiet nofun) fun _ _ quiet => quiet) fun t => ?_
    refine .ite (fun _ => .bind .attempt fun r => ?_) fun _ => .pure fun _ _ none => absurd rfl none
    cases r with
    | none => exact .pure fun _ _ none => absurd rfl none
    | some typeNode => exact .pure fun _ quiet _ => quiet nofun

instance (fnTypeNode typeNode nameCount : Nat) : p.Quiet d (p.addGroupTypes fnTypeNode typeNode nameCount) := by
  dsimp only [addGroupTypes]; infer_instance

instance (fnTypeNode : Nat) : p.Quiet d (p.tryParseFnTypeNamedParamGroup enter fnTypeNode) := by
  refine .of_get fun saved quiet => .bind inferInstance fun named => .ite ?_ inferInstance
  refine .speculate parseNamedGroup_secures (fun r => inferInstance) ?_
  exact .bind (quiet ▸ rewind_secures) fun _ => .pure fun _ quiet => quiet

/-- Going back to a state without a diagnostic leaves none. -/
theorem restore_quiet {saved : ParseState} (quiet : saved.diag = d) : p.Quiet d (p.restore saved) :=
  ⟨(quiet ▸ rewind_secures)⟩

instance (sawVariadic : Bool) : p.Quiet d (p.parseConstParamType enter sawVariadic) := by
  refine .of_get fun saved quiet => ?_
  have back := restore_quiet (p := p) quiet
  dsimp only
  infer_instance

instance (fnTypeNode : Nat) (sawVariadic : Bool) : p.Quiet d (p.parseFnTypeParam enter fnTypeNode sawVariadic) := by
  dsimp only [parseFnTypeParam]; infer_instance

instance : p.Quiet d (p.parseFnType enter) := by dsimp only [parseFnType]; infer_instance

instance : p.Quiet d (p.parseTupleType enter) := by dsimp only [parseTupleType]; infer_instance

instance (groupType nameCount : Nat) (resultTypes : List Nat) :
    p.Quiet d (p.pushGroupTypes groupType nameCount resultTypes) := by
  dsimp only [pushGroupTypes]; infer_instance

instance (code : DiagCode) : p.Quiet d (p.fieldNames code) := by dsimp only [fieldNames]; infer_instance

instance (single : Bool) : p.Quiet d (p.parseFieldDefault enter single) := by
  dsimp only [parseFieldDefault]; infer_instance

instance (agg fieldTypeNode : Nat) (name : Token) (defaultExpr : Option Nat) :
    p.Quiet d (p.addField agg fieldTypeNode name defaultExpr) := by
  cases defaultExpr <;> (dsimp only [addField]; infer_instance)

instance (agg typeNode : Nat) (defaultExpr : Option Nat) (names : List Token) :
    p.Quiet d (p.addFields agg typeNode defaultExpr names) := by
  cases names <;> (dsimp only [addFields]; infer_instance)

instance (aggTypeNode : Nat) : p.Quiet d (p.parseAnonymousAggregateFieldDeclList enter aggTypeNode) := by
  dsimp only [parseAnonymousAggregateFieldDeclList]; infer_instance

instance : p.Quiet d (p.parseAnonymousAggregateType enter) := by
  dsimp only [parseAnonymousAggregateType]; infer_instance

instance (kind : AstKind) : p.Quiet d (p.parsePrefixType enter kind) := by
  dsimp only [parsePrefixType]; infer_instance

instance : p.Quiet d (p.parseArrayLength enter) := by dsimp only [parseArrayLength]; infer_instance

instance : p.Quiet d (p.parseBracketType enter) := by
  dsimp only [parseBracketType]
  refine .bind inferInstance fun lb => .bind inferInstance fun child => .bind inferInstance fun slice => ?_
  refine .ite inferInstance (.bind inferInstance fun length => ?_)
  cases length <;> (dsimp only; infer_instance)

instance : p.Quiet d (p.parseType enter) := by dsimp only [parseType]; infer_instance

/-! ### Groups of results and lists of type parameters -/

/-- Going back to a state and going on without a result. -/
theorem giveUp_secures {pre : ParseState → Prop} {saved : ParseState} {r : α} (quiet : saved.diag = d) :
    Secures p.Clean pre (p.restore saved >>= fun _ => Pure.pure r) fun _ s => s.diag = d :=
  .bind (quiet ▸ rewind_secures) fun _ => .pure fun _ quiet => quiet

/-- A group of results leaves no diagnostic where its names do not. -/
theorem parseResultGroup_secures :
    Secures p.Clean (fun s => s.diag = d ∧ ¬p.GroupLeaks s.pos) (p.parseResultGroup enter) fun _ s => s.diag = d := by
  have isName : Secures p.Clean (fun s => s.diag = d ∧ ¬p.GroupLeaks s.pos) (p.isAt .IDENT) fun b s =>
      (s.diag = d ∧ ¬p.GroupLeaks s.pos) ∧ (b = true → (p.peekAt s.pos).kind = .IDENT) := by
    intro s s' b _ before run
    cases run
    exact ⟨before, beq_iff_eq.mp⟩
  have look (P : ParseState → Prop) : Secures p.Clean P p.peek fun t s => P s ∧ t = p.peekAt s.pos := by
    intro s s' t _ before run
    cases run
    exact ⟨before, rfl⟩
  refine .bind isName fun named => .ite (fun named => .get fun saved ready => ?_) fun _ => ?_
  rotate_left
  · exact .pure fun _ ready => ready.1.1
  subst named
  obtain ⟨⟨quiet, tight⟩, named⟩ := ready
  have names : Secures p.Clean (· = saved) p.resultNames fun n s =>
      0 < n ∧ isTypeStart (p.peekAt s.pos).kind = true → s.diag = d := by
    rintro _ s n _ rfl run ⟨some, starts⟩
    rcases resultNames_run run (named rfl) with same | ⟨found, none⟩
    · exact same.trans quiet
    · refine absurd ⟨?_, _, found, starts⟩ tight
      exact Bool.eq_false_iff.mpr fun refused => absurd (none refused) (by omega)
  refine .bind names fun n => .bind (look _) fun t => .ite (fun grouped => ?_) fun _ => giveUp_secures quiet
  refine .bind (.mono .attempt (fun s ready => ready.1 (ready.2 ▸ grouped)) fun _ _ quiet => quiet) fun r => ?_
  cases r with
  | none => exact giveUp_secures quiet
  | some groupType => exact .pure fun _ quiet => quiet nofun

instance : p.Quiet d (p.parseResultGroup enter) :=
  ⟨fun s s' r clean quiet => parseResultGroup_secures s s' r clean ⟨quiet, clean.groups enter s .here⟩⟩

instance (fnNode : Nat) : p.Quiet d (p.parseFnResultClause enter fnNode) := by
  dsimp only [parseFnResultClause]
  refine .bind inferInstance fun lp => .bind inferInstance fun empty => .ite inferInstance ?_
  have item (resultTypes : List Nat) : p.Quiet d (do
      match ← p.parseResultGroup enter with
      | some (nameCount, groupType) => p.pushGroupTypes groupType nameCount resultTypes
      | none => p.pushItem (enter .type) resultTypes) :=
    .bind inferInstance fun group => by cases group <;> infer_instance
  refine .bind inferInstance fun resultTypes => .bind inferInstance fun rp => ?_
  match resultTypes with
  | [] => dsimp only; infer_instance
  | [_] => dsimp only; infer_instance
  | _ :: _ :: _ => dsimp only; infer_instance

instance (ownerNode : Nat) : p.Quiet d (p.parseTypeParamList ownerNode) := by
  constructor
  intro s s' _ clean quiet run
  rcases parseTypeParamList_run run with ⟨-, rfl⟩ | ⟨bracket, last, s₁, parsed, -, looped, rest⟩
  · exact quiet
  · obtain ⟨same, names⟩ := typeParams_run looped
    by_cases closed : parsed = true ∧ (p.peekAt s₁.pos).kind = .RBRACK
    · rw [if_pos closed] at rest
      exact rest.2.trans (same.trans quiet)
    · rw [if_neg closed] at rest
      obtain ⟨-, -, diag⟩ := rest
      cases parsed with
      | false => exact diag.trans (same.trans quiet)
      | true =>
        have tight := clean.lists ownerNode s .here
        exact absurd ⟨bracket, _, names, fun rbrack => closed ⟨rfl, rbrack⟩⟩ tight

end Parser

end HopHop
