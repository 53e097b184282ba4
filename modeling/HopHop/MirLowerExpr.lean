import HopHop.MirExprBuild
import HopHop.MirLowerInst

namespace HopHop

/-! What an expression is lowered to: a function behind those that are there, which the validator accepts. -/

/-- Entries are only added. -/
structure MirBuilderTables.Extends (t t' : MirBuilderTables) : Prop where
  consts : t.consts.val <+: t'.consts.val
  sources : t.sources.val <+: t'.sources.val
  fields : t.fields.val <+: t'.fields.val
  types : t.types.val <+: t'.types.val
  hosts : t.hosts.val <+: t'.hosts.val
  symbols : t.symbols.val <+: t'.symbols.val

/-- The instructions with what they were given, each lowered. -/
abbrev LoweredCode (src : List UInt8) (t : MirBuilderTables) : List (MirInst × Option MirConst) → List MirInst → Prop :=
  List.Forall₂ fun p ins => LoweredTo src t p.1 p.2 ins

section Tables

variable {t t' t'' : MirBuilderTables} {src : List UInt8}

theorem MirBuilderTables.Extends.refl (t : MirBuilderTables) : t.Extends t :=
  ⟨List.prefix_rfl, List.prefix_rfl, List.prefix_rfl, List.prefix_rfl, List.prefix_rfl, List.prefix_rfl⟩

theorem MirBuilderTables.Extends.trans (first : t.Extends t') (second : t'.Extends t'') : t.Extends t'' where
  consts := first.consts.trans second.consts
  sources := first.sources.trans second.sources
  fields := first.fields.trans second.fields
  types := first.types.trans second.types
  hosts := first.hosts.trans second.hosts
  symbols := first.symbols.trans second.symbols

theorem MirBuilderTables.Grows.extends (grows : t.Grows t') : t.Extends t' where
  consts := grows.consts.1
  sources := grows.sources ▸ List.prefix_rfl
  fields := grows.fields.1
  types := grows.types.1
  hosts := grows.hosts.1
  symbols := grows.symbols.1

theorem MirBuilderTables.Room.mono {n k : Nat} (room : t.Room n) (fewer : k ≤ n) : t.Room k where
  consts := Nat.lt_of_le_of_lt (Nat.add_le_add_left fewer _) room.consts
  fields := Nat.lt_of_le_of_lt (Nat.add_le_add_left fewer _) room.fields
  types := Nat.lt_of_le_of_lt (Nat.add_le_add_left fewer _) room.types
  hosts := Nat.lt_of_le_of_lt (Nat.add_le_add_left fewer _) room.hosts
  symbols := Nat.lt_of_le_of_lt (Nat.add_le_add_left fewer _) room.symbols

/-- An instruction takes one entry of each table at most. -/
theorem MirBuilderTables.Grows.room (grows : t.Grows t') {n : Nat} (room : t.Room (n + 1)) : t'.Room n where
  consts := by have := grows.consts.2; have := room.consts; omega
  fields := by have := grows.fields.2; have := room.fields; omega
  types := by have := grows.types.2; have := room.types; omega
  hosts := by have := grows.hosts.2; have := room.hosts; omega
  symbols := by have := grows.symbols.2; have := room.symbols; omega

theorem LoweredTo.mono {ins ins' : MirInst} {given : Option MirConst} (lowered : LoweredTo src t ins given ins')
    (grown : t.Extends t') : LoweredTo src t' ins given ins' := by
  cases lowered with
  | const op entry => exact .const op (getElem?_grown grown.consts entry)
  | ident op entry => exact .ident op (getElem?_grown grown.symbols entry)
  | call op noHost entry => exact .call op noHost (getElem?_grown grown.symbols entry)
  | host op isHost noReceiver entry => exact .host op isHost noReceiver (getElem?_grown grown.hosts entry)
  | cast op entry node => exact .cast op (getElem?_grown grown.types entry) node
  | field op entry => exact .field op (getElem?_grown grown.fields entry)
  | same names types fields => exact .same names types fields

theorem LoweredCode.mono {code : List (MirInst × Option MirConst)} {out : List MirInst}
    (lowered : LoweredCode src t code out) (grown : t.Extends t') : LoweredCode src t' code out := by
  induction lowered with
  | nil => exact .nil
  | cons one _ ih => exact .cons (one.mono grown) ih

end Tables

section

variable {σ γ δ γ' δ' : Type} {full full' : Prop} {good : γ → δ → Prop} {good' : γ' → δ' → Prop}

theorem LowersAs.bind {x : Exec σ γ} {y : Exec σ δ} {f : γ → Exec σ γ'} {g : δ → Exec σ δ'} {s : σ}
    (first : LowersAs full good (x s) (y s)) (isFull : full → full')
    (rest : ∀ given a s', good given a → LowersAs full' good' (f given s') (g a s')) :
    LowersAs full' good' ((x >>= f) s) ((y >>= g) s) := by
  rcases left : x s with ⟨given, s'⟩ | ⟨e, s'⟩ <;> rcases right : y s with ⟨a, s''⟩ | ⟨e', s''⟩ <;>
    rw [left, right] at first
  · rw [PostfixCode.bind_ok left, PostfixCode.bind_ok right]
    cases first with
    | ok holds => exact rest _ _ _ holds
  · rw [PostfixCode.bind_error right]
    cases first with
    | full is => exact .full (isFull is)
  · cases first
  · rw [PostfixCode.bind_error left, PostfixCode.bind_error right]
    cases first with
    | error => exact .error
    | full is => exact .full (isFull is)

theorem LowersAs.of_ok {r : EStateM.Result Stop σ γ} {a : δ} {s : σ} (lowers : LowersAs full good r (.ok a s)) :
    ∃ given, r = .ok given s ∧ good given a := by
  cases lowers with
  | ok holds => exact ⟨_, rfl, holds⟩

theorem LowersAs.mono {r : EStateM.Result Stop σ γ} {r' : EStateM.Result Stop σ δ} (lowers : LowersAs full good r r')
    {good' : γ → δ → Prop} (isFull : full → full') (better : ∀ given a, good given a → good' given a) :
    LowersAs full' good' r r' := by
  cases lowers with
  | ok holds => exact .ok (better _ _ holds)
  | error => exact .error
  | full is => exact .full (isFull is)

end

section

variable {σ : Type} {m : Machine σ} {src : MirSourceRef} {b : MirProgramBuilder} {a : MirBodies} {body : MirBody}

/-- The functions with other tables and one instruction more in the open one. -/
def MirBodies.lowered (a : MirBodies) (t : MirBuilderTables) (body : MirBody) (out : List MirInst) : MirBodies :=
  { a with tables := t, current := some { body with insts := body.insts ++ out } }

theorem MirProgramBuilder.Represents.withTables (holds : b.Represents a) (t : MirBuilderTables) :
    { b with tables := t }.Represents { a with tables := t } :=
  ⟨rfl, holds.insts, holds.locals, holds.funcs, holds.openFunc⟩

/-- An instruction is appended to the open function, or the table of instructions is full. -/
theorem append_cases (holds : b.Represents a) (isOpen : a.current = some body) (t : MirBuilderTables) (ins : MirInst) :
    (∃ b', { b with tables := t }.appendInst ins = some b' ∧ b'.Represents (a.lowered t body [ins])) ∨
      { b with tables := t }.appendInst ins = none ∧ ¬a.insts.length + 1 < UInt32.size := by
  have answers := (holds.withTables t).appendInst ins
  rw [MirProgramBuilder.call, MirBodies.call] at answers
  obtain ⟨_, closed, current⟩ := a
  obtain rfl : current = some body := isOpen
  simp only [Option.bind_some] at answers
  by_cases room : (MirBodies.insts ⟨t, closed, some body⟩).length + 1 < UInt32.size
  · rw [if_pos room] at answers
    rcases appended : { b with tables := t }.appendInst ins with _ | b' <;> rw [appended] at answers
    · cases answers
    · cases answers with
      | some both => exact .inl ⟨b', appended, both.2⟩
  · rw [if_neg room] at answers
    rcases appended : { b with tables := t }.appendInst ins with _ | b' <;> rw [appended] at answers
    · exact .inr ⟨appended, room⟩
    · cases answers

theorem lowerAppendInst_spec (holds : b.Represents a) (isOpen : a.current = some body) (ins : MirInst) (s : σ) :
    LowersAs (¬(b.tables.Room 1 ∧ a.insts.length + 1 < UInt32.size))
      (fun given b' => ∃ t ins', b.tables.Grows t ∧ LoweredTo src.src t ins given ins' ∧
        b'.Represents (a.lowered t body [ins']))
      (literalConst m src.src ins s) (lowerAppendInst m src b ins s) := by
  have plain : literalConst m src.src ins = literalConst m src.src ins >>= pure := (bind_pure _).symm
  have parts : lowerAppendInst m src b ins = lowerInst m src b.tables ins >>= fun r =>
      orOutOfMemory m r.2.start r.2.stop ({ b with tables := r.1 }.appendInst r.2) := rfl
  rw [plain, parts]
  refine lowerInst_spec.bind (fun small both => small both.1) fun given r s' spec => ?_
  rcases append_cases holds isOpen r.1 r.2 with ⟨b', appended, holds'⟩ | ⟨none, isFull⟩
  · rw [appended]
    exact .ok ⟨r.1, r.2, spec.1, spec.2, holds'⟩
  · rw [none]
    exact .full fun both => isFull both.2

theorem length_lowered (isOpen : a.current = some body) (t : MirBuilderTables) (out : List MirInst) :
    (a.lowered t body out).insts.length = a.insts.length + out.length := by
  rw [MirBodies.insts, MirBodies.insts, MirBodies.all, MirBodies.all, isOpen]
  simp only [MirBodies.lowered, Option.toList_some, List.flatMap_append, List.flatMap_singleton, List.length_append,
    Nat.add_assoc]

/-- Instructions are lowered one after the other into the open function. -/
theorem lowerInsts_spec (code : List MirInst) (holds : b.Represents a) (isOpen : a.current = some body) (s : σ) :
    LowersAs (¬(b.tables.Room code.length ∧ a.insts.length + code.length < UInt32.size))
      (fun given b' => ∃ t out, b.tables.Extends t ∧ LoweredCode src.src t (code.zip given) out ∧
        b'.Represents (a.lowered t body out))
      (PostfixCode.evalAll (literalConst m src.src) code s) (lowerInsts m src b code s) := by
  induction code generalizing b a body s with
  | nil =>
    refine .ok ⟨b.tables, [], .refl _, .nil, ?_⟩
    rw [MirBodies.lowered, List.append_nil, ← isOpen, holds.tables]
    exact holds
  | cons ins code ih =>
    refine (lowerAppendInst_spec holds isOpen ins s).bind (fun small both => small ⟨?_, ?_⟩) fun given b' s' spec => ?_
    · exact both.1.mono (Nat.succ_le_succ (Nat.zero_le _))
    · have := both.2
      rw [List.length_cons] at this
      omega
    · obtain ⟨t, ins', grows, lowered, holds'⟩ := spec
      have plain : lowerInsts m src b' code = lowerInsts m src b' code >>= pure := (bind_pure _).symm
      have tables : b'.tables = t := holds'.tables
      have length := length_lowered isOpen t [ins']
      rw [plain]
      refine (ih holds' rfl s').bind (fun small both => small ⟨?_, ?_⟩) fun rest b'' s'' spec' => ?_
      · rw [tables]
        exact grows.room both.1
      · rw [length, List.length_singleton]
        have := both.2
        rw [List.length_cons] at this
        omega
      · obtain ⟨t', out, grown, all, holds''⟩ := spec'
        rw [tables] at grown
        refine .ok ⟨t', ins' :: out, grows.extends.trans grown, .cons (lowered.mono grown) all, ?_⟩
        have same : (a.lowered t body [ins']).lowered t' { body with insts := body.insts ++ [ins'] } out =
            a.lowered t' body (ins' :: out) := by
          simp only [MirBodies.lowered, List.append_assoc, List.singleton_append]
        rw [← same]
        exact holds''

end

section

variable {σ γ δ : Type} {m : Machine σ} {full : Prop} {good : γ → δ → Prop} {s : σ}

/-- An entry is added, or the table is full. -/
theorem orOutOfMemory_bind {α : Type} {start stop : UInt32} {added : Option α} {next : α → Exec σ δ}
    {r : EStateM.Result Stop σ γ}
    (cases : (∃ x, added = some x ∧ LowersAs full good r (next x s)) ∨ added = none ∧ full) :
    LowersAs full good r ((orOutOfMemory m start stop added >>= next) s) := by
  rcases cases with ⟨x, rfl, goes⟩ | ⟨rfl, isFull⟩
  · exact goes
  · exact .full isFull

end

section

variable {t : MirBuilderTables}

theorem addSource_cases (src : MirSourceRef) :
    (∃ i t' s, t.addSource src = some (i, t') ∧ t' = { t with sources := t'.sources } ∧
      t.sources.val <+: t'.sources.val ∧ t'.sources.val[i.toNat]? = some s ∧ (s = src ∨ s ∈ t.sources.val)) ∨
      t.addSource src = none ∧ ¬t.sources.val.length + 1 < UInt32.size := by
  rw [MirBuilderTables.addSource]
  rcases found : t.sources.val.findIdx? _ with _ | i
  · by_cases room : t.sources.val.length + 1 < UInt32.size
    · obtain ⟨i, sources, appended, grown, a, entry, rfl⟩ := append_entered t.sources src room
      refine .inl ⟨i, { t with sources }, a, ?_, rfl, grown.1, entry, .inl rfl⟩
      simp only [appended, Option.map_some]
    · refine .inr ⟨?_, room⟩
      simp only [append_full _ _ room, Option.map_none]
  · obtain ⟨_, a, entry, _⟩ := found_entered t.sources found
    exact .inl ⟨_, t, a, rfl, rfl, List.prefix_rfl, entry, .inr (List.mem_of_getElem? entry)⟩

theorem addType_cases (value : MirTypeRef) :
    (∃ i t', t.addType value = some (i, t') ∧ t.Grows t' ∧ t'.types.val[i.toNat]? = some value) ∨
      t.addType value = none ∧ ¬t.Room 1 := by
  rw [MirBuilderTables.addType]
  by_cases room : t.types.val.length + 1 < UInt32.size
  · obtain ⟨i, types, appended, grown, a, entry, rfl⟩ := append_entered t.types value room
    refine .inl ⟨i, { t with types }, ?_, { MirBuilderTables.Grows.refl t with types := grown }, entry⟩
    simp only [appended, Option.map_some]
  · refine .inr ⟨?_, fun fits => room fits.types⟩
    simp only [append_full _ _ room, Option.map_none]

end

section

variable {σ : Type} {m : Machine σ} {ast : Ast} {src : MirSourceRef} {b : MirProgramBuilder} {a : MirBodies}
  {chunk : List MirInst}

/-- The tables have room for an expression of so many instructions. -/
structure MirBodies.Takes (a : MirBodies) (size : Nat) : Prop where
  tables : a.tables.Room (size + 1)
  sources : a.tables.sources.val.length + 1 < UInt32.size
  funcs : a.closed.length + 1 < UInt32.size
  insts : a.insts.length + size < UInt32.size

/-- A function of the expression stands behind the others. -/
structure MirProgramBuilder.HasExpr (b : MirProgramBuilder) (a : MirBodies) (src : MirSourceRef)
    (code : List (MirInst × Option MirConst)) (sourceRef typeRef : UInt32) (t : MirBuilderTables) (out : List MirInst) :
    Prop where
  grown : a.tables.Extends t
  source : ∃ s, t.sources.val[sourceRef.toNat]? = some s ∧ (s = src ∨ s ∈ a.tables.sources.val)
  type : typeRef = noTypeRef ∨ typeRef.toNat < t.types.val.length
  lowered : LoweredCode src.src t code out
  holds : b.Represents ⟨t, a.closed ++ [⟨exprFunction sourceRef typeRef, [], out⟩], none⟩

variable (m ast) in
theorem resultType_cases (t : MirBuilderTables) (resultTypeNode : Int) (sourceRef : UInt32) (s : σ) :
    (∃ typeRef t', resultType m ast t resultTypeNode sourceRef s = .ok (typeRef, t') s ∧ t.Grows t' ∧
      (typeRef = noTypeRef ∨ typeRef.toNat < t'.types.val.length) ∧ (resultTypeNode < 0 → typeRef = noTypeRef)) ∨
      (∃ s', resultType m ast t resultTypeNode sourceRef s = .error .error s') ∧ ¬t.Room 1 := by
  rw [resultType]
  by_cases untyped : resultTypeNode < 0
  · rw [if_pos untyped]
    exact .inl ⟨noTypeRef, t, rfl, .refl t, .inl rfl, fun _ => rfl⟩
  · rw [if_neg untyped]
    rcases addType_cases (t := t) ⟨nodeOperand resultTypeNode, sourceRef, 0, 0⟩ with
      ⟨i, t', added, grows, entry⟩ | ⟨none, isFull⟩
    · rw [added]
      exact .inl ⟨i, t', rfl, grows, .inr (List.getElem?_eq_some_iff.mp entry).1, fun neg => absurd neg untyped⟩
    · rw [none]
      exact .inr ⟨⟨_, rfl⟩, isFull⟩

theorem begin_cases (holds : b.Represents a) (shut : a.current = none) (t : MirBuilderTables) (fn : MirFunction) :
    (∃ b', { b with tables := t }.beginFunction fn = some (UInt32.ofNat a.closed.length, b') ∧
      b'.Represents ⟨t, a.closed, some ⟨fn, [], []⟩⟩) ∨
      { b with tables := t }.beginFunction fn = none ∧ ¬a.closed.length + 1 < UInt32.size := by
  have answers := (holds.withTables t).beginFunction fn
  rw [MirProgramBuilder.call, MirBodies.call] at answers
  obtain ⟨_, closed, current⟩ := a
  obtain rfl : current = none := shut
  by_cases room : closed.length + 1 < UInt32.size
  · rw [if_pos ⟨rfl, room⟩] at answers
    rcases begun : { b with tables := t }.beginFunction fn with _ | ⟨i, b'⟩ <;> rw [begun] at answers
    · cases answers
    · cases answers with
      | some both =>
        have index : i = UInt32.ofNat closed.length := Option.some.inj both.1
        exact .inl ⟨b', begun.trans (congrArg (fun i => some (i, b')) index), both.2⟩
  · rw [if_neg (not_and_of_not_right _ room)] at answers
    rcases begun : { b with tables := t }.beginFunction fn with _ | ⟨i, b'⟩ <;> rw [begun] at answers
    · exact .inr ⟨begun, room⟩
    · cases answers

theorem end_some (holds : b.Represents a) {body : MirBody} (isOpen : a.current = some body) :
    ∃ b', b.endFunction = some b' ∧ b'.Represents ⟨a.tables, a.closed ++ [body], none⟩ := by
  have answers := holds.endFunction
  rw [MirProgramBuilder.call, MirBodies.call, isOpen, Option.map_some] at answers
  rcases ended : b.endFunction with _ | b' <;> rw [ended] at answers
  · cases answers
  · cases answers with
    | some both => exact ⟨b', rfl, both.2⟩

variable (m ast) in
/-- What lowering an expression comes to. -/
theorem lowerAppendExprAsFunction_spec (resultTypeNode : Int) {arenaHasRoom : Bool} {treeDepth : Nat} {nodeId : Int}
    (built : buildExpr ast src.src arenaHasRoom treeDepth nodeId = .ok (some chunk)) (holds : b.Represents a)
    (shut : a.current = none) (s : σ) :
    LowersAs (¬a.Takes chunk.length)
      (fun given r => ∃ b' sourceRef typeRef t out, r = some (UInt32.ofNat a.closed.length, b') ∧
        (resultTypeNode < 0 → typeRef = noTypeRef) ∧
        b'.HasExpr a src (chunk.zip given) sourceRef typeRef t out)
      (PostfixCode.evalAll (literalConst m src.src) chunk s)
      (lowerAppendExprAsFunction m ast src arenaHasRoom treeDepth b nodeId resultTypeNode s) := by
  rw [lowerAppendExprAsFunction, built]
  change LowersAs _ _ _ ((orOutOfMemory m 0 0 (b.tables.addSource src) >>= _) s)
  apply orOutOfMemory_bind
  rw [holds.tables]
  rcases addSource_cases (t := a.tables) src with ⟨sourceRef, t₁, source, added, only, sources, entry, from_⟩ | ⟨none, isFull⟩
  case inr => exact .inr ⟨none, fun takes => isFull takes.sources⟩
  refine .inl ⟨(sourceRef, t₁), added, ?_⟩
  have room₁ (takes : a.Takes chunk.length) : t₁.Room (chunk.length + 1) := by
    rw [only]
    exact ⟨takes.tables.consts, takes.tables.fields, takes.tables.types, takes.tables.hosts, takes.tables.symbols⟩
  have grown₁ : a.tables.Extends t₁ := by
    rw [only]
    exact { MirBuilderTables.Extends.refl a.tables with sources := sources }
  rcases resultType_cases m ast t₁ resultTypeNode sourceRef s with
    ⟨typeRef, t₂, typed, grows₂, inside, untyped⟩ | ⟨⟨s', stops⟩, isFull⟩
  case inr =>
    simp only [PostfixCode.bind_error stops]
    exact .full fun takes => isFull ((room₁ takes).mono (Nat.succ_le_succ (Nat.zero_le _)))
  simp only [PostfixCode.bind_ok typed]
  apply orOutOfMemory_bind
  rcases begin_cases holds shut t₂ (exprFunction sourceRef typeRef) with ⟨b₁, begun, holds₁⟩ | ⟨none, isFull⟩
  case inr => exact .inr ⟨none, fun takes => isFull takes.funcs⟩
  refine .inl ⟨(_, b₁), begun, ?_⟩
  have plain : PostfixCode.evalAll (literalConst m src.src) chunk =
      PostfixCode.evalAll (literalConst m src.src) chunk >>= pure := (bind_pure _).symm
  have sameInsts : (⟨t₂, a.closed, some ⟨exprFunction sourceRef typeRef, [], []⟩⟩ : MirBodies).insts = a.insts := by
    rw [MirBodies.insts, MirBodies.insts, MirBodies.all, MirBodies.all, shut]
    simp only [Option.toList_some, Option.toList_none, List.flatMap_append, List.flatMap_singleton, List.append_nil]
  rw [plain]
  refine (lowerInsts_spec chunk holds₁ rfl s).bind (fun small takes => small ⟨?_, ?_⟩) fun given b₂ s' spec => ?_
  · rw [show b₁.tables = t₂ from holds₁.tables]
    exact grows₂.room (room₁ takes)
  · rw [sameInsts]
    exact takes.insts
  · obtain ⟨t, out, grown, lowered, holds₂⟩ := spec
    rw [show b₁.tables = t₂ from holds₁.tables] at grown
    obtain ⟨b₃, ended, holds₃⟩ := end_some holds₂ rfl
    rw [ended]
    refine .ok ⟨b₃, sourceRef, typeRef, t, out, rfl, untyped, ?_⟩
    constructor
    case grown => exact grown₁.trans (grows₂.extends.trans grown)
    case source =>
      have entry₂ : t₂.sources.val[sourceRef.toNat]? = some source := by rw [grows₂.sources]; exact entry
      exact ⟨source, getElem?_grown grown.sources entry₂, from_⟩
    case type => exact inside.imp_right fun below => Nat.lt_of_lt_of_le below grown.types.length_le
    case lowered => exact lowered
    case holds => exact holds₃

end

end HopHop
