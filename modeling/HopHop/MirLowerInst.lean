import HopHop.MirBuilderBodies
import HopHop.MirLower
import HopHop.PostfixTree

namespace HopHop

/-! What one instruction is lowered to, and what the tables then hold. -/

/-- Entries are only added, at most one to each table. -/
structure MirBuilderTables.Grows (t t' : MirBuilderTables) : Prop where
  consts : t.consts.val <+: t'.consts.val ∧ t'.consts.val.length ≤ t.consts.val.length + 1
  sources : t'.sources = t.sources
  fields : t.fields.val <+: t'.fields.val ∧ t'.fields.val.length ≤ t.fields.val.length + 1
  types : t.types.val <+: t'.types.val ∧ t'.types.val.length ≤ t.types.val.length + 1
  hosts : t.hosts.val <+: t'.hosts.val ∧ t'.hosts.val.length ≤ t.hosts.val.length + 1
  symbols : t.symbols.val <+: t'.symbols.val ∧ t'.symbols.val.length ≤ t.symbols.val.length + 1

/-- Each table takes so many more entries. -/
structure MirBuilderTables.Room (t : MirBuilderTables) (n : Nat) : Prop where
  consts : t.consts.val.length + n < UInt32.size
  fields : t.fields.val.length + n < UInt32.size
  types : t.types.val.length + n < UInt32.size
  hosts : t.hosts.val.length + n < UInt32.size
  symbols : t.symbols.val.length + n < UInt32.size

/-- The operations that push a literal. -/
def MirOp.isLiteral : MirOp → Bool
  | .PUSH_INT | .PUSH_FLOAT | .PUSH_BOOL | .PUSH_STRING | .PUSH_NULL => true
  | _ => false

/-- What an instruction is lowered to: a constant, or the instruction with the index of an entry that has its name, its
type or its field. -/
inductive LoweredTo (src : List UInt8) (t : MirBuilderTables) (ins : MirInst) : Option MirConst → MirInst → Prop
  | const {value : MirConst} {i : UInt32} (op : ins.op.isLiteral = true)
    (entry : t.consts.val[i.toNat]? = some value) :
    LoweredTo src t ins (some value) { ins with op := .PUSH_CONST, tok := 0, aux := i }
  | ident {i : UInt32} (op : ins.op = .LOAD_IDENT ∨ ins.op = .STORE_IDENT)
    (entry : t.symbols.val[i.toNat]? = some ⟨⟨ins.start, ins.stop, .IDENT⟩, 0, ins.aux⟩) :
    LoweredTo src t ins none { ins with aux := i }
  | call {i : UInt32} (op : ins.op = .CALL)
    (noHost : hostTargetOf src ins.start ins.stop = none ∨ rawCallAuxFlags ins.aux ≠ 0)
    (entry : t.symbols.val[i.toNat]? =
      some ⟨⟨ins.start, ins.stop, .CALL⟩, rawCallAuxFlags ins.aux, rawCallAuxNode ins.aux⟩) :
    LoweredTo src t ins none { ins with aux := i }
  | host {i target : UInt32} (op : ins.op = .CALL) (isHost : hostTargetOf src ins.start ins.stop = some target)
    (noReceiver : rawCallAuxFlags ins.aux = 0)
    (entry : t.hosts.val[i.toNat]? = some ⟨ins.start, ins.stop, true, 0, target⟩) :
    LoweredTo src t ins none { ins with op := .CALL_HOST, aux := i }
  | cast {i : UInt32} {ty : MirTypeRef} (op : ins.op = .CAST) (entry : t.types.val[i.toNat]? = some ty)
    (node : ty.astNode = ins.aux) : LoweredTo src t ins none { ins with aux := i }
  | field {i : UInt32} (op : ins.op = .AGG_GET ∨ ins.op = .AGG_ADDR)
    (entry : t.fields.val[i.toNat]? = some ⟨⟨ins.start, ins.stop⟩, 0, noTypeRef, noTypeRef⟩) :
    LoweredTo src t ins none { ins with aux := i }
  | same (names : ins.op ≠ .LOAD_IDENT ∧ ins.op ≠ .STORE_IDENT ∧ ins.op ≠ .CALL) (types : ins.op ≠ .CAST)
    (fields : ins.op ≠ .AGG_GET ∧ ins.op ≠ .AGG_ADDR) : LoweredTo src t ins none ins

/-- What lowering comes to, as against reading the literals: it stops where that stops, or where a table is full. -/
inductive LowersAs {σ γ δ : Type} (full : Prop) (good : γ → δ → Prop) :
    EStateM.Result Stop σ γ → EStateM.Result Stop σ δ → Prop
  | ok {given : γ} {a : δ} {s : σ} (holds : good given a) : LowersAs full good (.ok given s) (.ok a s)
  | error {e : Stop} {s : σ} : LowersAs full good (.error e s) (.error e s)
  | full {r : EStateM.Result Stop σ γ} {s : σ} (isFull : full) : LowersAs full good r (.error .error s)

section Entries

variable {α : Type}

/-- The table has the entry at this index, and at most one entry more than before. -/
def Entered (entries entries' : MirArray α) (i : UInt32) (test : α → Prop) : Prop :=
  (entries.val <+: entries'.val ∧ entries'.val.length ≤ entries.val.length + 1) ∧
    ∃ a, entries'.val[i.toNat]? = some a ∧ test a

theorem append_entered (entries : MirArray α) (value : α) (room : entries.val.length + 1 < UInt32.size) :
    ∃ i entries', entries.append value = some (i, entries') ∧ Entered entries entries' i (· = value) := by
  rw [MirArray.append, dif_pos room]
  refine ⟨_, _, rfl, ⟨List.prefix_append _ _, ?_⟩, value, ?_, rfl⟩
  · rw [List.length_append, List.length_singleton]
  · rw [toNat_ofNat_below (Nat.lt_of_succ_lt room), List.getElem?_append_right (Nat.le_refl _), Nat.sub_self]
    rfl

theorem append_full (entries : MirArray α) (value : α) (full : ¬entries.val.length + 1 < UInt32.size) :
    entries.append value = none := by
  rw [MirArray.append, dif_neg full]

theorem found_entered (entries : MirArray α) {same : α → Bool} {i : Nat} (found : entries.val.findIdx? same = some i) :
    Entered entries entries (UInt32.ofNat i) fun a => same a = true := by
  obtain ⟨inside, passes, _⟩ := List.findIdx?_eq_some_iff_getElem.mp found
  refine ⟨⟨List.prefix_rfl, Nat.le_succ _⟩, entries.val[i], ?_, passes⟩
  rw [toNat_ofNat_below (Nat.lt_trans inside entries.property), List.getElem?_eq_getElem inside]

end Entries

namespace MirBuilderTables

variable {t t' : MirBuilderTables}

theorem Grows.refl (t : MirBuilderTables) : t.Grows t := by
  constructor
  case sources => rfl
  all_goals exact ⟨List.prefix_rfl, Nat.le_succ _⟩

variable (t)

/-- A table is asked for an entry: it has one, takes one, or is full. -/
theorem intern_symbol (value : MirSymbolEntry) :
    (∃ i t', t.internSymbol value = some (i, t') ∧ t.Grows t' ∧ t'.hosts = t.hosts ∧
      t'.symbols.val[i.toNat]? = some value) ∨ t.internSymbol value = none ∧ ¬t.Room 1 := by
  rw [internSymbol, intern]
  rcases found : t.symbols.val.findIdx? _ with _ | i
  · by_cases room : t.symbols.val.length + 1 < UInt32.size
    · obtain ⟨i, symbols, appended, grown, a, entry, rfl⟩ := append_entered t.symbols value room
      refine .inl ⟨i, { t with symbols }, ?_, { Grows.refl t with symbols := grown }, rfl, entry⟩
      simp only [addSymbol, appended, Option.map_some]
    · refine .inr ⟨?_, fun fits => room fits.symbols⟩
      simp only [addSymbol, append_full _ _ room, Option.map_none]
  · obtain ⟨_, a, entry, same⟩ := found_entered t.symbols found
    exact .inl ⟨_, t, rfl, .refl t, rfl, by rw [entry, of_decide_eq_true same]⟩

theorem intern_host (value : MirHostRef) :
    (∃ i t', t.internHost value = some (i, t') ∧ t' = { t with hosts := t'.hosts } ∧
      (t.hosts.val <+: t'.hosts.val ∧ t'.hosts.val.length ≤ t.hosts.val.length + 1) ∧
      t'.hosts.val[i.toNat]? = some value) ∨ t.internHost value = none ∧ ¬t.hosts.val.length + 1 < UInt32.size := by
  rw [internHost, intern]
  rcases found : t.hosts.val.findIdx? _ with _ | i
  · by_cases room : t.hosts.val.length + 1 < UInt32.size
    · obtain ⟨i, hosts, appended, grown, a, entry, rfl⟩ := append_entered t.hosts value room
      refine .inl ⟨i, { t with hosts }, ?_, rfl, grown, entry⟩
      simp only [addHost, appended, Option.map_some]
    · refine .inr ⟨?_, room⟩
      simp only [addHost, append_full _ _ room, Option.map_none]
  · obtain ⟨grown, a, entry, same⟩ := found_entered t.hosts found
    exact .inl ⟨_, t, rfl, rfl, grown, by rw [entry, of_decide_eq_true same]⟩

theorem intern_type (astNode sourceRef flags : UInt32) :
    (∃ i t' ty, t.internType astNode sourceRef flags = some (i, t') ∧ t.Grows t' ∧
      t'.types.val[i.toNat]? = some ty ∧ ty.astNode = astNode) ∨
      t.internType astNode sourceRef flags = none ∧ ¬t.Room 1 := by
  rw [internType, intern]
  rcases found : t.types.val.findIdx? _ with _ | i
  · by_cases room : t.types.val.length + 1 < UInt32.size
    · obtain ⟨i, types, appended, grown, a, entry, rfl⟩ :=
        append_entered t.types (⟨astNode, sourceRef, flags, 0⟩ : MirTypeRef) room
      refine .inl ⟨i, { t with types }, _, ?_, { Grows.refl t with types := grown }, entry, rfl⟩
      simp only [addType, appended, Option.map_some]
    · refine .inr ⟨?_, fun fits => room fits.types⟩
      simp only [addType, append_full _ _ room, Option.map_none]
  · obtain ⟨_, a, entry, same⟩ := found_entered t.types found
    exact .inl ⟨_, t, a, rfl, .refl t, entry, (of_decide_eq_true same).1⟩

theorem intern_field (nameStart nameEnd : UInt32) :
    (∃ i t', t.internField nameStart nameEnd = some (i, t') ∧ t.Grows t' ∧
      t'.fields.val[i.toNat]? = some ⟨⟨nameStart, nameEnd⟩, 0, noTypeRef, noTypeRef⟩) ∨
      t.internField nameStart nameEnd = none ∧ ¬t.Room 1 := by
  rw [internField, intern]
  rcases found : t.fields.val.findIdx? _ with _ | i
  · by_cases room : t.fields.val.length + 1 < UInt32.size
    · obtain ⟨i, fields, appended, grown, a, entry, rfl⟩ :=
        append_entered t.fields (⟨⟨nameStart, nameEnd⟩, 0, noTypeRef, noTypeRef⟩ : MirFieldEntry) room
      refine .inl ⟨i, { t with fields }, ?_, { Grows.refl t with fields := grown }, entry⟩
      simp only [addField, appended, Option.map_some]
    · refine .inr ⟨?_, fun fits => room fits.fields⟩
      simp only [addField, append_full _ _ room, Option.map_none]
  · obtain ⟨_, a, entry, same⟩ := found_entered t.fields found
    exact .inl ⟨_, t, rfl, .refl t, by rw [entry, of_decide_eq_true same]⟩

theorem add_const (value : MirConst) :
    (∃ i t', t.addConst value = some (i, t') ∧ t.Grows t' ∧ t'.consts.val[i.toNat]? = some value) ∨
      t.addConst value = none ∧ ¬t.Room 1 := by
  rw [addConst]
  by_cases room : t.consts.val.length + 1 < UInt32.size
  · obtain ⟨i, consts, appended, grown, a, entry, rfl⟩ := append_entered t.consts value room
    refine .inl ⟨i, { t with consts }, ?_, { Grows.refl t with consts := grown }, entry⟩
    simp only [appended, Option.map_some]
  · refine .inr ⟨?_, fun fits => room fits.consts⟩
    simp only [append_full _ _ room, Option.map_none]

end MirBuilderTables

section

variable {σ : Type} {m : Machine σ} {src : MirSourceRef} {t : MirBuilderTables} {ins : MirInst} {s : σ}

theorem lowerSymbolInst_other (names : ins.op ≠ .LOAD_IDENT ∧ ins.op ≠ .STORE_IDENT ∧ ins.op ≠ .CALL) :
    lowerSymbolInst m t ins = pure (t, ins) := by
  rw [lowerSymbolInst]
  split
  · exact absurd ‹_› names.1
  · exact absurd ‹_› names.2.1
  · exact absurd ‹_› names.2.2
  · rfl

theorem lowerTypeInst_other (types : ins.op ≠ .CAST) : lowerTypeInst m t src ins = pure (t, ins) := if_neg types

theorem lowerHostInst_other (call : ins.op ≠ .CALL) : lowerHostInst m t src.src ins = pure (t, ins) := if_neg call

theorem lowerFieldInst_other (fields : ins.op ≠ .AGG_GET ∧ ins.op ≠ .AGG_ADDR) :
    lowerFieldInst m t ins = pure (t, ins) := if_neg (not_or.mpr fields)

/-- Only literals have a constant. -/
theorem literalConst_isLiteral {src : List UInt8} {value : MirConst} {s' : σ}
    (literal : literalConst m src ins s = .ok (some value) s') : ins.op.isLiteral = true := by
  unfold literalConst at literal
  cases op : ins.op <;>
    first
    | rfl
    | simp only [op] at literal
      cases literal

variable (m src t ins) in
/-- What follows the step of the literals. -/
def lowerNamed : Exec σ (MirBuilderTables × MirInst) := do
  let (t, ins) ← lowerSymbolInst m t ins
  let (t, ins) ← lowerTypeInst m t src ins
  let (t, ins) ← lowerHostInst m t src.src ins
  lowerFieldInst m t ins

theorem lowerNamed_other (names : ins.op ≠ .LOAD_IDENT ∧ ins.op ≠ .STORE_IDENT ∧ ins.op ≠ .CALL)
    (types : ins.op ≠ .CAST) (fields : ins.op ≠ .AGG_GET ∧ ins.op ≠ .AGG_ADDR) :
    lowerNamed m src t ins = pure (t, ins) := by
  simp only [lowerNamed, lowerSymbolInst_other names, lowerTypeInst_other types, lowerHostInst_other names.2.2,
    lowerFieldInst_other fields, pure_bind]

section

variable {full : Prop} {good : Unit → MirBuilderTables × MirInst → Prop} {start stop : UInt32}
  {added : Option (UInt32 × MirBuilderTables)} {f : UInt32 → MirInst}

/-- The instruction has the index of an entry, or the table is full. -/
theorem refersTo_spec
    (entered : (∃ i t', added = some (i, t') ∧ good () (t', f i)) ∨ added = none ∧ full) :
    LowersAs full good (.ok () s) (refersTo m start stop added f s) := by
  rcases entered with ⟨i, t', rfl, holds⟩ | ⟨rfl, isFull⟩
  · exact .ok holds
  · exact .full isFull

theorem refersTo_bind {next : MirBuilderTables × MirInst → Exec σ (MirBuilderTables × MirInst)}
    (entered : (∃ i t', added = some (i, t') ∧ LowersAs full good (.ok () s) (next (t', f i) s)) ∨ added = none ∧ full) :
    LowersAs full good (.ok () s) ((refersTo m start stop added f >>= next) s) := by
  rcases entered with ⟨i, t', rfl, goes⟩ | ⟨rfl, isFull⟩
  · exact goes
  · exact .full isFull

end

variable (m src t ins s) in
/-- What the steps after that of the literals come to. -/
def NamedWell : Prop :=
  LowersAs (¬t.Room 1) (fun (_ : Unit) r => t.Grows r.1 ∧ LoweredTo src.src r.1 ins none r.2) (.ok () s)
    (lowerNamed m src t ins s)

theorem lowerNamed_ident (op : ins.op = .LOAD_IDENT ∨ ins.op = .STORE_IDENT) : NamedWell m src t ins s := by
  have other : ins.op ≠ .CAST ∧ ins.op ≠ .CALL ∧ ins.op ≠ .AGG_GET ∧ ins.op ≠ .AGG_ADDR := by
    rcases op with op | op <;> rw [op] <;> decide
  have named : lowerSymbolInst m t ins = refersTo m ins.start ins.stop
      (t.internSymbol ⟨⟨ins.start, ins.stop, .IDENT⟩, 0, ins.aux⟩) fun i => { ins with aux := i } := by
    rw [lowerSymbolInst]
    rcases op with op | op <;> simp only [op]
  rw [NamedWell, lowerNamed, named]
  apply refersTo_bind
  rcases t.intern_symbol ⟨⟨ins.start, ins.stop, .IDENT⟩, 0, ins.aux⟩ with ⟨i, t', interned, grows, _, entry⟩ | isFull
  · refine .inl ⟨i, t', interned, ?_⟩
    have noCast : ({ ins with aux := i } : MirInst).op ≠ .CAST := other.1
    have noCall : ({ ins with aux := i } : MirInst).op ≠ .CALL := other.2.1
    have noField : ({ ins with aux := i } : MirInst).op ≠ .AGG_GET ∧ ({ ins with aux := i } : MirInst).op ≠ .AGG_ADDR :=
      other.2.2
    simp only [lowerTypeInst_other noCast, lowerHostInst_other noCall, lowerFieldInst_other noField, pure_bind]
    exact .ok ⟨grows, .ident op entry⟩
  · exact .inr isFull

variable (m src) in
/-- A call of a builtin without a receiver is made to the host. -/
theorem lowerHostInst_call {i : UInt32} (op : ins.op = .CALL) {flags target : UInt32}
    (entry : t.symbols.val[i.toNat]? = some ⟨⟨ins.start, ins.stop, .CALL⟩, flags, target⟩) :
    lowerHostInst m t src.src { ins with aux := i } =
        refersTo m ins.start ins.stop (t.internHost ⟨ins.start, ins.stop, true, 0,
          (hostTargetOf src.src ins.start ins.stop).getD 0⟩) (fun j => { ins with op := .CALL_HOST, aux := j }) ∧
        (hostTargetOf src.src ins.start ins.stop).isSome ∧ flags = 0 ∨
      lowerHostInst m t src.src { ins with aux := i } = pure (t, { ins with aux := i }) ∧
        (hostTargetOf src.src ins.start ins.stop = none ∨ flags ≠ 0) := by
  rw [lowerHostInst, if_pos (show ({ ins with aux := i } : MirInst).op = .CALL from op)]
  cases hostTargetOf src.src ins.start ins.stop with
  | none => exact .inr ⟨rfl, .inl rfl⟩
  | some target =>
    simp only [entry, ne_eq, not_true_eq_false, false_or]
    by_cases receiver : flags = 0
    · exact .inl ⟨if_neg (not_not.mpr receiver), rfl, receiver⟩
    · exact .inr ⟨if_pos receiver, .inr receiver⟩

theorem lowerNamed_call (op : ins.op = .CALL) : NamedWell m src t ins s := by
  have named : lowerSymbolInst m t ins = refersTo m ins.start ins.stop
      (t.internSymbol ⟨⟨ins.start, ins.stop, .CALL⟩, rawCallAuxFlags ins.aux, rawCallAuxNode ins.aux⟩)
      fun i => { ins with aux := i } := by
    simp only [lowerSymbolInst, op]
  rw [NamedWell, lowerNamed, named]
  apply refersTo_bind
  rcases t.intern_symbol ⟨⟨ins.start, ins.stop, .CALL⟩, rawCallAuxFlags ins.aux, rawCallAuxNode ins.aux⟩ with
    ⟨i, t', interned, grows, sameHosts, entry⟩ | isFull
  case inr => exact .inr isFull
  refine .inl ⟨i, t', interned, ?_⟩
  have noCast : ({ ins with aux := i } : MirInst).op ≠ .CAST := by
    change ins.op ≠ .CAST
    rw [op]
    decide
  simp only [pure_bind, lowerTypeInst_other noCast]
  rcases lowerHostInst_call m src op entry with ⟨hosted, isHost, noReceiver⟩ | ⟨plain, noHost⟩
  · rw [hosted]
    apply refersTo_bind
    obtain ⟨target, isTarget⟩ := Option.isSome_iff_exists.mp isHost
    rw [isTarget, Option.getD_some]
    rcases t'.intern_host ⟨ins.start, ins.stop, true, 0, target⟩ with
      ⟨j, t'', interned', only, grown, entry'⟩ | ⟨none, isFull⟩
    · refine .inl ⟨j, t'', interned', ?_⟩
      have noField : ({ ins with op := .CALL_HOST, aux := j } : MirInst).op ≠ .AGG_GET ∧
          ({ ins with op := .CALL_HOST, aux := j } : MirInst).op ≠ .AGG_ADDR := by
        change MirOp.CALL_HOST ≠ .AGG_GET ∧ MirOp.CALL_HOST ≠ .AGG_ADDR
        decide
      simp only [lowerFieldInst_other noField]
      refine .ok ⟨?_, .host op isTarget noReceiver entry'⟩
      rw [sameHosts] at grown
      rw [only]
      exact { grows with hosts := grown }
    · refine .inr ⟨none, fun room => isFull ?_⟩
      rw [sameHosts]
      exact room.hosts
  · have noField : ({ ins with aux := i } : MirInst).op ≠ .AGG_GET ∧ ({ ins with aux := i } : MirInst).op ≠ .AGG_ADDR := by
      change ins.op ≠ .AGG_GET ∧ ins.op ≠ .AGG_ADDR
      rw [op]
      decide
    simp only [plain, pure_bind, lowerFieldInst_other noField]
    exact .ok ⟨grows, .call op noHost entry⟩

theorem lowerNamed_cast (op : ins.op = .CAST) : NamedWell m src t ins s := by
  have other : (ins.op ≠ .LOAD_IDENT ∧ ins.op ≠ .STORE_IDENT ∧ ins.op ≠ .CALL) ∧ ins.op ≠ .AGG_GET ∧
      ins.op ≠ .AGG_ADDR := by rw [op]; decide
  have typed : lowerTypeInst m t src ins =
      refersTo m 0 0 (t.internType ins.aux (t.findSourceRef src) 0) fun i => { ins with aux := i } := if_pos op
  simp only [NamedWell, lowerNamed, lowerSymbolInst_other other.1, pure_bind, typed]
  apply refersTo_bind
  rcases t.intern_type ins.aux (t.findSourceRef src) 0 with ⟨i, t', ty, interned, grows, entry, node⟩ | isFull
  · refine .inl ⟨i, t', interned, ?_⟩
    have noCall : ({ ins with aux := i } : MirInst).op ≠ .CALL := other.1.2.2
    have noField : ({ ins with aux := i } : MirInst).op ≠ .AGG_GET ∧ ({ ins with aux := i } : MirInst).op ≠ .AGG_ADDR :=
      other.2
    simp only [pure_bind, lowerHostInst_other noCall, lowerFieldInst_other noField]
    exact .ok ⟨grows, .cast op entry node⟩
  · exact .inr isFull

theorem lowerNamed_field (op : ins.op = .AGG_GET ∨ ins.op = .AGG_ADDR) : NamedWell m src t ins s := by
  have other : (ins.op ≠ .LOAD_IDENT ∧ ins.op ≠ .STORE_IDENT ∧ ins.op ≠ .CALL) ∧ ins.op ≠ .CAST := by
    rcases op with op | op <;> rw [op] <;> decide
  have fielded : lowerFieldInst m t ins =
      refersTo m ins.start ins.stop (t.internField ins.start ins.stop) fun i => { ins with aux := i } := if_pos op
  simp only [NamedWell, lowerNamed, lowerSymbolInst_other other.1, pure_bind, lowerTypeInst_other other.2,
    lowerHostInst_other other.1.2.2, fielded]
  apply refersTo_spec
  rcases t.intern_field ins.start ins.stop with ⟨i, t', interned, grows, entry⟩ | isFull
  · exact .inl ⟨i, t', interned, grows, .field op entry⟩
  · exact .inr isFull

variable (m src t ins s) in
/-- An instruction with a name, a type or a field gets the index of its entry. -/
theorem lowerNamed_spec : NamedWell m src t ins s := by
  by_cases ident : ins.op = .LOAD_IDENT ∨ ins.op = .STORE_IDENT
  · exact lowerNamed_ident ident
  by_cases call : ins.op = .CALL
  · exact lowerNamed_call call
  by_cases cast : ins.op = .CAST
  · exact lowerNamed_cast cast
  by_cases field : ins.op = .AGG_GET ∨ ins.op = .AGG_ADDR
  · exact lowerNamed_field field
  · have names := not_or.mp ident
    have fields := not_or.mp field
    rw [NamedWell, lowerNamed_other ⟨names.1, names.2, call⟩ cast fields]
    exact .ok ⟨.refl t, .same ⟨names.1, names.2, call⟩ cast fields⟩

/-- What an instruction is lowered to. -/
theorem lowerInst_spec :
    LowersAs (¬t.Room 1) (fun given r => t.Grows r.1 ∧ LoweredTo src.src r.1 ins given r.2)
      (literalConst m src.src ins s) (lowerInst m src t ins s) := by
  have split : lowerInst m src t ins = lowerConstInst m src.src t ins >>= fun r => lowerNamed m src r.1 r.2 := rfl
  rw [split]
  cases literal : literalConst m src.src ins s with
  | error e s' =>
    have stops : lowerConstInst m src.src t ins s = .error e s' := PostfixCode.bind_error literal
    rw [PostfixCode.bind_error stops]
    exact .error
  | ok given s' =>
    cases given with
    | none =>
      have same : lowerConstInst m src.src t ins s = .ok (t, ins) s' := PostfixCode.bind_ok literal
      rw [PostfixCode.bind_ok same]
      have spec := lowerNamed_spec m src t ins s'
      unfold NamedWell at spec
      revert spec
      generalize lowerNamed m src t ins s' = result
      intro spec
      cases spec with
      | ok holds => exact .ok holds
      | full isFull => exact .full isFull
    | some value =>
      have adds : lowerConstInst m src.src t ins s = refersTo m ins.start ins.stop (t.addConst value)
          (fun i => { ins with op := .PUSH_CONST, tok := 0, aux := i }) s' := PostfixCode.bind_ok literal
      rcases t.add_const value with ⟨i, t', added, grows, entry⟩ | ⟨none, isFull⟩
      · rw [added] at adds
        have done : lowerConstInst m src.src t ins s =
            .ok (t', { ins with op := .PUSH_CONST, tok := 0, aux := i }) s' := adds
        have plain : lowerNamed m src t' { ins with op := .PUSH_CONST, tok := 0, aux := i } = pure _ :=
          lowerNamed_other (show MirOp.PUSH_CONST ≠ .LOAD_IDENT ∧ MirOp.PUSH_CONST ≠ .STORE_IDENT ∧
            MirOp.PUSH_CONST ≠ .CALL by decide) (show MirOp.PUSH_CONST ≠ .CAST by decide)
            (show MirOp.PUSH_CONST ≠ .AGG_GET ∧ MirOp.PUSH_CONST ≠ .AGG_ADDR by decide)
        rw [PostfixCode.bind_ok done]
        simp only [plain]
        exact .ok ⟨grows, .const (literalConst_isLiteral literal) entry⟩
      · rw [none] at adds
        have stops : lowerConstInst m src.src t ins s = .error .error _ := adds
        rw [PostfixCode.bind_error stops]
        exact .full isFull

end

end HopHop
