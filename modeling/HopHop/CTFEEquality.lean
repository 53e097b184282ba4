import HopHop.CTFEEval
import HopHop.FloatEq

namespace HopHop

/-! What `==` and `!=` of compile-time evaluation come to. An operand is read as the plain value below its
optionals, and plain values are compared by their kinds. -/

section

variable {σ : Type} (m : Machine σ) (s : σ)

/-! ### Bytes and strings -/

/-- Two blocks compare as equal if and only if they hold the same bytes. -/
theorem memcmp_eq_iff {a b : Ptr} {n : Nat} :
    m.memcmp a b n s = .eq ↔ ∀ i < n, m.loadByte (a + UInt64.ofNat i) s = m.loadByte (b + UInt64.ofNat i) s := by
  induction n generalizing a b with
  | zero => exact ⟨fun _ i inside => absurd inside (Nat.not_lt_zero i), fun _ => rfl⟩
  | succ n ih =>
    rw [Machine.memcmp, Ordering.then_eq_eq, ih, Std.LawfulEqCmp.compare_eq_iff_eq]
    have next : ∀ (p : Ptr) i, p + 1 + UInt64.ofNat i = p + UInt64.ofNat (i + 1) := by
      intro p i
      rw [UInt64.add_assoc, UInt64.ofNat_add, UInt64.add_comm 1]
      rfl
    simp only [next]
    constructor
    · rintro ⟨first, rest⟩ i inside
      cases i with
      | zero => simpa using first
      | succ i => exact rest i (by omega)
    · intro same
      exact ⟨by simpa using same 0 (by omega), fun i inside => same (i + 1) (by omega)⟩

theorem stringEq_iff {a b : CTFEString} :
    stringEq m a b s = true ↔ a.len = b.len ∧
      ∀ i < a.len.toNat, m.loadByte (a.bytes + UInt64.ofNat i) s = m.loadByte (b.bytes + UInt64.ofNat i) s := by
  unfold stringEq
  by_cases len : a.len = b.len
  · rw [if_neg (fun different => different len)]
    by_cases empty : a.len = 0
    · rw [if_pos empty]
      simp [empty, ← len]
    · rw [if_neg empty, decide_eq_true_eq, memcmp_eq_iff]
      exact ⟨fun same => ⟨len, same⟩, fun both => both.2⟩
  · rw [if_pos len]
    exact ⟨nofun, fun both => absurd both.1 len⟩

theorem stringEq_symm (a b : CTFEString) : stringEq m a b s = stringEq m b a s := by
  rw [Bool.eq_iff_iff, stringEq_iff, stringEq_iff]
  constructor
  · rintro ⟨len, bytes⟩
    exact ⟨len.symm, fun i inside => (bytes i (len ▸ inside)).symm⟩
  · rintro ⟨len, bytes⟩
    exact ⟨len.symm, fun i inside => (bytes i (len ▸ inside)).symm⟩

theorem stringEq_trans {a b c : CTFEString} (ab : stringEq m a b s = true) (bc : stringEq m b c s = true) :
    stringEq m a c s = true := by
  rw [stringEq_iff] at ab bc ⊢
  exact ⟨ab.1.trans bc.1, fun i inside => (ab.2 i inside).trans (bc.2 i (ab.1 ▸ inside))⟩

theorem stringEq_refl (a : CTFEString) : stringEq m a a s = true :=
  (stringEq_iff m s).mpr ⟨rfl, fun _ _ => rfl⟩

/-! ### Plain values -/

/-- A value that is no optional, as equality sees it. -/
inductive PlainValue
  | int (i : Int64)
  | float (f : Float)
  | bool (b : UInt8)
  | string (s : CTFEString)
  | type (tag : UInt64)
  | null
  | reference (target : Ptr)
  | other

def CTFEValue.plain (v : CTFEValue) : PlainValue :=
  match v.kind with
  | .INT => .int v.i64
  | .FLOAT => .float v.f64
  | .BOOL => .bool v.b
  | .STRING => .string v.s
  | .TYPE => .type v.typeTag
  | .NULL => .null
  | .REFERENCE => .reference v.s.bytes
  | _ => .other

namespace PlainValue

/-- Equality of plain values, where it is decided. -/
def eq : PlainValue → PlainValue → Option Bool
  | int i, int j => some (i = j)
  | int i, float g => some (i.toFloat == g)
  | float f, int j => some (f == j.toFloat)
  | float f, float g => some (f == g)
  | bool a, bool b => some (a = b)
  | string a, string b => some (stringEq m a b s)
  | type a, type b => some (a = b)
  | null, null => some true
  | null, reference p => some (p = 0)
  | null, string a => some (a.bytes = 0)
  | null, _ => some false
  | reference p, null => some (p = 0)
  | string a, null => some (a.bytes = 0)
  | _, null => some false
  | _, _ => none

theorem eq_symm (x y : PlainValue) : x.eq m s y = y.eq m s x := by
  cases x <;> cases y
  case int.int => exact congrArg some (decide_eq_decide.mpr eq_comm)
  case int.float => exact congrArg some (FloatEq.symm ..)
  case float.int => exact congrArg some (FloatEq.symm ..)
  case float.float => exact congrArg some (FloatEq.symm ..)
  case bool.bool => exact congrArg some (decide_eq_decide.mpr eq_comm)
  case string.string => exact congrArg some (stringEq_symm ..)
  case type.type => exact congrArg some (decide_eq_decide.mpr eq_comm)
  all_goals rfl

/-- Where two equalities compose: two integers need not be one because a float equals both, nor are two strings
because both are null pointers, and a string with an address is not null because an empty one is. -/
def Composes : PlainValue → PlainValue → PlainValue → Prop
  | int i, float _, int j => i = j
  | string a, null, string b => a.len = b.len
  | string a, string _, null => a.bytes = 0
  | null, string _, string b => b.bytes = 0
  | _, _, _ => True

/-- Two strings at the null pointer are equal if and only if their lengths are. -/
theorem nullStrings_iff {a b : CTFEString} (atA : a.bytes = 0) (atB : b.bytes = 0) :
    stringEq m a b s = true ↔ a.len = b.len := by
  rw [stringEq_iff, atA, atB]
  exact ⟨fun both => both.1, fun len => ⟨len, fun _ _ => rfl⟩⟩

theorem composes_iff {x y z : PlainValue} {r : Bool} (xy : x.eq m s y = some true) (yz : y.eq m s z = some true)
    (xz : x.eq m s z = some r) : r = true ↔ x.Composes y z := by
  cases y <;> cases x <;> first | (cases xy; done) | skip
  all_goals cases z <;> first | (cases yz; done) | (cases xz; done) | skip
  all_goals have first := Option.some.inj xy
  all_goals have second := Option.some.inj yz
  all_goals obtain rfl := Option.some.inj xz
  all_goals first
    | exact decide_eq_true_iff
    | exact nullStrings_iff m s (of_decide_eq_true first) (of_decide_eq_true second)
    | refine iff_of_true ?_ trivial
  all_goals first
    | rfl | exact decide_eq_true ((of_decide_eq_true first).trans (of_decide_eq_true second))
    | exact FloatEq.trans first second | exact stringEq_trans m s first second
    | exact second | exact first
    | exact of_decide_eq_true first ▸ second | exact of_decide_eq_true second ▸ first

theorem Composes.symm {x y z : PlainValue} (compose : x.Composes y z) : z.Composes y x := by
  cases x <;> cases y <;> cases z <;> simp only [Composes] at compose ⊢ <;>
    first | exact compose | exact compose.symm

/-- Equalities compose past two values of one kind, if the third is of that kind or not null. -/
theorem composes_of_kinds {x y z : CTFEValue} (xy : x.kind = y.kind) (yz : y.kind = z.kind ∨ z.kind ≠ .NULL) :
    x.plain.Composes y.plain z.plain := by
  unfold CTFEValue.plain
  rw [← xy] at yz ⊢
  cases left : x.kind <;> cases right : z.kind <;> simp_all [Composes]

theorem other_eq_true {y : PlainValue} (equal : PlainValue.other.eq m s y = some true) : False := by
  cases y <;> cases equal

/-- Only strings and references are equal to null besides null itself. -/
theorem eq_null {x y : CTFEValue} (notNull : x.kind ≠ .NULL) (null : y.kind = .NULL)
    (equal : x.plain.eq m s y.plain = some true) : x.kind = .STRING ∨ x.kind = .REFERENCE := by
  unfold CTFEValue.plain at equal
  rw [null] at equal
  cases left : x.kind <;> rw [left] at equal <;> first | exact absurd left notNull | cases equal | skip
  · exact .inl rfl
  · exact .inr rfl

/-- A value equal to one that is not null can be compared with those of its kind. -/
theorem eq_of_kind {x y z : CTFEValue} (equal : x.plain.eq m s y.plain = some true) (notNull : y.kind ≠ .NULL)
    (kind : x.kind = z.kind) : ∃ r, x.plain.eq m s z.plain = some r := by
  unfold CTFEValue.plain at equal
  cases left : x.kind <;> rw [left] at equal kind <;> unfold CTFEValue.plain <;> rw [left, ← kind]
  case REFERENCE =>
    cases right : y.kind <;> rw [right] at equal <;> first | exact absurd right notNull | cases equal
  all_goals first | exact ⟨_, rfl⟩ | exact (other_eq_true m s equal).elim

end PlainValue

/-! ### Values below optionals -/

/-- The plain value a value holds below so many optionals. -/
inductive Core : CTFEValue → Nat → CTFEValue → Prop
  | here {v : CTFEValue} (plain : v.kind ≠ .OPTIONAL) : Core v 0 v
  | inner {v core : CTFEValue} {p : Ptr} {depth : Nat} (payload : optionalPayload v = some (some p))
      (rest : Core (m.loadValue p s) depth core) : Core v (depth + 1) core

variable {m s}

theorem optionalPayload_some {v : CTFEValue} {p : Ptr} :
    optionalPayload v = some (some p) ↔ v.kind = .OPTIONAL ∧ v.b ≠ 0 ∧ v.s.bytes ≠ 0 ∧ p = v.s.bytes := by
  unfold optionalPayload
  split_ifs with kind flag null
  · exact ⟨nofun, fun holds => absurd holds.1 kind⟩
  · exact ⟨nofun, fun holds => absurd flag holds.2.1⟩
  · exact ⟨nofun, fun holds => absurd null holds.2.2.1⟩
  · simp only [Option.some.injEq]
    exact ⟨fun same => ⟨not_not.mp kind, flag, null, same.symm⟩, fun holds => holds.2.2.2.symm⟩

theorem optionalPayload_empty {v : CTFEValue} (found : optionalPayload v = some none) : v.b = 0 := by
  unfold optionalPayload at found
  split_ifs at found with kind flag null
  · exact flag
  · cases found

theorem optionalPayload_none {v : CTFEValue} (kind : v.kind = .OPTIONAL) (missing : optionalPayload v = none) :
    v.b ≠ 0 := by
  unfold optionalPayload at missing
  split_ifs at missing with plain flag null
  · exact absurd kind plain
  · exact flag

theorem Core.plain {v core : CTFEValue} {depth : Nat} (below : Core m s v depth core) : core.kind ≠ .OPTIONAL := by
  induction below with
  | here plain => exact plain
  | inner _ _ ih => exact ih

theorem Core.unique {v x y : CTFEValue} {d e : Nat} (left : Core m s v d x) (right : Core m s v e y) :
    d = e ∧ x = y := by
  induction left generalizing e with
  | here plain =>
    cases right with
    | here => exact ⟨rfl, rfl⟩
    | inner payload => exact absurd (optionalPayload_some.mp payload).1 plain
  | inner payload _ ih =>
    cases right with
    | here plain => exact absurd (optionalPayload_some.mp payload).1 plain
    | inner payload' rest' =>
      rw [payload] at payload'
      cases payload'
      obtain ⟨depth, same⟩ := ih rest'
      exact ⟨congrArg (· + 1) depth, same⟩

theorem Core.optional {v core : CTFEValue} {depth : Nat} (below : Core m s v depth core)
    (optional : v.kind = .OPTIONAL) : v.b ≠ 0 ∧ 0 < depth := by
  cases below with
  | here plain => exact absurd optional plain
  | inner payload => exact ⟨(optionalPayload_some.mp payload).2.1, Nat.succ_pos _⟩

theorem Core.same {v core : CTFEValue} {depth : Nat} (below : Core m s v depth core)
    (notOptional : v.kind ≠ .OPTIONAL) : depth = 0 ∧ core = v := by
  cases below with
  | here => exact ⟨rfl, rfl⟩
  | inner payload => exact absurd (optionalPayload_some.mp payload).1 notOptional

/-! ### The recursive comparison of optionals -/

variable (m s)

/-- Comparison of two plain values of one kind. -/
def leafEq (x y : CTFEValue) : Bool := valueEqRec m 1 x y s

/-- Two optionals, one step. -/
theorem valueEqRec_optional {a b : CTFEValue} (left : a.kind = .OPTIONAL) (right : b.kind = .OPTIONAL) (n : Nat) :
    valueEqRec m (n + 1) a b s =
      match optionalPayload a, optionalPayload b with
      | some (some p), some (some q) => valueEqRec m n (m.loadValue p s) (m.loadValue q s) s
      | some _, some _ => decide (a.b = b.b)
      | _, _ => false := by
  change (if a.kind ≠ b.kind then false else _) = _
  refine (if_neg (not_not_intro (left.trans right.symm))).trans ?_
  simp only [left]
  all_goals rfl

theorem valueEqRec_plain {a b : CTFEValue} (plain : a.kind ≠ .OPTIONAL) (n : Nat) :
    valueEqRec m (n + 1) a b s = leafEq m s a b := by
  change (if a.kind ≠ b.kind then false else _) = if a.kind ≠ b.kind then false else _
  cases kind : a.kind with
  | OPTIONAL => exact absurd kind plain
  | _ => rfl

theorem valueEqRec_kind {a b : CTFEValue} {n : Nat} (equal : valueEqRec m n a b s = true) : a.kind = b.kind := by
  cases n with
  | zero => cases equal
  | succ n =>
    by_contra different
    have unequal : valueEqRec m (n + 1) a b s = false := if_pos different
    rw [unequal] at equal
    cases equal

/-- Two spans of one place in one file text. -/
def SpanEq (a b : CTFESpan) : Prop :=
  (a.startLine = b.startLine ∧ a.startColumn = b.startColumn ∧ a.endLine = b.endLine ∧
    a.endColumn = b.endColumn ∧ a.fileLen = b.fileLen) ∧
  (a.fileLen = 0 ∨ a.fileBytes ≠ 0 ∧ b.fileBytes ≠ 0 ∧
    ∀ i < a.fileLen.toNat, m.loadByte (a.fileBytes + UInt64.ofNat i) s = m.loadByte (b.fileBytes + UInt64.ofNat i) s)

theorem leafEq_span {a b : CTFEValue} (left : a.kind = .SPAN) (right : b.kind = .SPAN) :
    leafEq m s a b = true ↔ SpanEq m s a.span b.span := by
  have kinds : ¬a.kind ≠ b.kind := fun different => different (left.trans right.symm)
  change (if a.kind ≠ b.kind then false else _) = true ↔ _
  rw [if_neg kinds, left, SpanEq]
  dsimp only
  split_ifs with place empty
  · refine ⟨nofun, fun same => ?_⟩
    obtain ⟨⟨h₁, h₂, h₃, h₄, h₅⟩, -⟩ := same
    rcases place with h | h | h | h | h <;> contradiction
  · simp only [not_or, not_not] at place
    exact ⟨fun _ => ⟨place, .inl empty⟩, fun _ => rfl⟩
  · simp only [not_or, not_not] at place
    rw [decide_eq_true_eq, memcmp_eq_iff]
    exact ⟨fun bytes => ⟨place, .inr bytes⟩, fun same => same.2.resolve_left empty⟩

/-- Values of one kind other than optionals and spans are compared as plain ones, where those are. -/
theorem leafEq_plain {x y : CTFEValue} {r : Bool} (kind : x.kind = y.kind)
    (decided : x.plain.eq m s y.plain = some r) : leafEq m s x y = r := by
  have kinds : ¬x.kind ≠ y.kind := not_not.mpr kind
  change (if x.kind ≠ y.kind then false else _) = r
  rw [if_neg kinds]
  unfold CTFEValue.plain at decided
  cases left : x.kind <;> rw [left] at kind decided <;> rw [← kind] at decided <;>
    first | exact Option.some.inj decided | cases decided

theorem leafEq_iff {x y : CTFEValue} (plain : x.kind ≠ .OPTIONAL) : leafEq m s x y = true ↔
    x.kind = y.kind ∧ (x.plain.eq m s y.plain = some true ∨ x.kind = .SPAN ∧ SpanEq m s x.span y.span) := by
  constructor
  · intro equal
    have kind := valueEqRec_kind m s equal
    refine ⟨kind, ?_⟩
    by_cases span : x.kind = .SPAN
    · exact .inr ⟨span, (leafEq_span m s span (kind ▸ span)).mp equal⟩
    · refine .inl ?_
      cases decided : x.plain.eq m s y.plain with
      | some r => rw [← leafEq_plain m s kind decided, equal]
      | none =>
        change (if x.kind ≠ y.kind then false else _) = true at equal
        rw [if_neg (not_not.mpr kind)] at equal
        unfold CTFEValue.plain at decided
        cases left : x.kind <;> rw [left] at kind decided equal <;> rw [← kind] at decided <;>
          first
          | exact absurd decided (Option.some_ne_none _) | exact absurd equal Bool.false_ne_true
          | exact absurd left plain | exact absurd left span
  · rintro ⟨kind, equal | ⟨span, equal⟩⟩
    · exact leafEq_plain m s kind equal
    · exact (leafEq_span m s span (kind ▸ span)).mpr equal

theorem SpanEq.symm {a b : CTFESpan} (same : SpanEq m s a b) : SpanEq m s b a := by
  obtain ⟨⟨h₁, h₂, h₃, h₄, h₅⟩, bytes⟩ := same
  refine ⟨⟨h₁.symm, h₂.symm, h₃.symm, h₄.symm, h₅.symm⟩, ?_⟩
  rcases bytes with empty | ⟨atA, atB, bytes⟩
  · exact .inl (h₅ ▸ empty)
  · exact .inr ⟨atB, atA, fun i inside => (bytes i (h₅ ▸ inside)).symm⟩

theorem SpanEq.trans {a b c : CTFESpan} (ab : SpanEq m s a b) (bc : SpanEq m s b c) : SpanEq m s a c := by
  obtain ⟨⟨h₁, h₂, h₃, h₄, h₅⟩, bytes⟩ := ab
  obtain ⟨⟨k₁, k₂, k₃, k₄, k₅⟩, bytes'⟩ := bc
  refine ⟨⟨h₁.trans k₁, h₂.trans k₂, h₃.trans k₃, h₄.trans k₄, h₅.trans k₅⟩, ?_⟩
  rcases bytes with empty | ⟨atA, atB, bytes⟩
  · exact .inl empty
  · rcases bytes' with empty | ⟨atB', atC, bytes'⟩
    · exact .inl (h₅.trans empty)
    · exact .inr ⟨atA, atC, fun i inside => (bytes i inside).trans (bytes' i (h₅ ▸ inside))⟩

/-- Plain values of one kind that are equal to a third one are equal. -/
theorem PlainValue.eq_trans_kind {x y z : CTFEValue} (xy : x.kind = y.kind) (yz : y.kind = z.kind)
    (left : x.plain.eq m s y.plain = some true) (right : y.plain.eq m s z.plain = some true) :
    x.plain.eq m s z.plain = some true := by
  have floats := @FloatEq.trans
  have strings := @stringEq_trans _ m s
  unfold CTFEValue.plain at *
  rw [← yz, ← xy] at right
  rw [← xy] at left
  rw [← yz, ← xy]
  have decided {α : Type} [DecidableEq α] {a b c : α} (ab : decide (a = b) = true) (bc : decide (b = c) = true) :
      decide (a = c) = true := decide_eq_true ((of_decide_eq_true ab).trans (of_decide_eq_true bc))
  cases kind : x.kind <;> rw [kind] at left right
  case FLOAT => exact congrArg some (floats (Option.some.inj left) (Option.some.inj right))
  case STRING => exact congrArg some (strings (Option.some.inj left) (Option.some.inj right))
  case NULL => rfl
  all_goals first
    | exact congrArg some (decided (Option.some.inj left) (Option.some.inj right))
    | exact absurd left.symm (Option.some_ne_none true)

theorem leafEq_symm {x y : CTFEValue} (equal : leafEq m s x y = true) (plain : x.kind ≠ .OPTIONAL) :
    leafEq m s y x = true := by
  obtain ⟨kind, same⟩ := (leafEq_iff m s plain).mp equal
  refine (leafEq_iff m s (kind ▸ plain)).mpr ⟨kind.symm, ?_⟩
  rcases same with decided | ⟨span, same⟩
  · exact .inl (by rw [PlainValue.eq_symm, decided])
  · exact .inr ⟨kind ▸ span, SpanEq.symm m s same⟩

theorem leafEq_trans {x y z : CTFEValue} (plain : x.kind ≠ .OPTIONAL) (xy : leafEq m s x y = true)
    (yz : leafEq m s y z = true) : leafEq m s x z = true := by
  obtain ⟨kind, same⟩ := (leafEq_iff m s plain).mp xy
  obtain ⟨kind', same'⟩ := (leafEq_iff m s (kind ▸ plain)).mp yz
  refine (leafEq_iff m s plain).mpr ⟨kind.trans kind', ?_⟩
  rcases same with decided | ⟨span, same⟩
  · rcases same' with decided' | ⟨span', -⟩
    · exact .inl (PlainValue.eq_trans_kind m s kind kind' decided decided')
    · unfold CTFEValue.plain at decided
      rw [kind, span'] at decided
      cases decided
  · rcases same' with decided' | ⟨-, same'⟩
    · unfold CTFEValue.plain at decided'
      rw [← kind', ← kind, span] at decided'
      cases decided'
    · exact .inr ⟨span, SpanEq.trans m s same same'⟩

/-- Equality of optionals, one step: both are empty, or both hold payloads that are equal. -/
theorem valueEqRec_optional_iff {a b : CTFEValue} (left : a.kind = .OPTIONAL) (right : b.kind = .OPTIONAL)
    (n : Nat) : valueEqRec m (n + 1) a b s = true ↔
      (a.b = 0 ∧ b.b = 0) ∨ ∃ p q, optionalPayload a = some (some p) ∧ optionalPayload b = some (some q) ∧
        valueEqRec m n (m.loadValue p s) (m.loadValue q s) s = true := by
  have empty := @optionalPayload_empty
  have missing := @optionalPayload_none
  have filled : ∀ {v : CTFEValue} {p}, optionalPayload v = some (some p) → v.b ≠ 0 :=
    fun found => (optionalPayload_some.mp found).2.1
  rw [valueEqRec_optional m s left right]
  rcases atA : optionalPayload a with _ | (_ | p) <;> rcases atB : optionalPayload b with _ | (_ | q) <;>
    simp_all
  exact Ne.symm (filled atB)

/-- Equality of values is symmetric. -/
theorem valueEqRec_symm_of {n : Nat} {a b : CTFEValue} (equal : valueEqRec m n a b s = true) :
    valueEqRec m n b a s = true := by
  induction n generalizing a b with
  | zero => cases equal
  | succ n ih =>
    have kind := valueEqRec_kind m s equal
    by_cases optional : a.kind = .OPTIONAL
    · have optional' : b.kind = .OPTIONAL := kind ▸ optional
      rw [valueEqRec_optional_iff m s optional optional'] at equal
      rw [valueEqRec_optional_iff m s optional' optional]
      rcases equal with ⟨left, right⟩ | ⟨p, q, atA, atB, inner⟩
      · exact .inl ⟨right, left⟩
      · exact .inr ⟨q, p, atB, atA, ih inner⟩
    · rw [valueEqRec_plain m s optional] at equal
      rw [valueEqRec_plain m s (kind ▸ optional)]
      exact leafEq_symm m s equal optional

theorem valueEqRec_symm (n : Nat) (a b : CTFEValue) : valueEqRec m n a b s = valueEqRec m n b a s :=
  Bool.eq_iff_iff.mpr ⟨valueEqRec_symm_of m s, valueEqRec_symm_of m s⟩

/-- Equality of values is transitive. -/
theorem valueEqRec_trans {n : Nat} {a b c : CTFEValue} (ab : valueEqRec m n a b s = true)
    (bc : valueEqRec m n b c s = true) : valueEqRec m n a c s = true := by
  induction n generalizing a b c with
  | zero => cases ab
  | succ n ih =>
    have kind := valueEqRec_kind m s ab
    have kind' := valueEqRec_kind m s bc
    by_cases optional : a.kind = .OPTIONAL
    · have atB : b.kind = .OPTIONAL := kind ▸ optional
      have atC : c.kind = .OPTIONAL := kind' ▸ atB
      rw [valueEqRec_optional_iff m s optional atB] at ab
      rw [valueEqRec_optional_iff m s atB atC] at bc
      rw [valueEqRec_optional_iff m s optional atC]
      rcases ab with ⟨emptyA, emptyB⟩ | ⟨p, q, payloadA, payloadB, inner⟩
      · rcases bc with ⟨-, emptyC⟩ | ⟨q', r, payloadB', -, -⟩
        · exact .inl ⟨emptyA, emptyC⟩
        · exact absurd emptyB (optionalPayload_some.mp payloadB').2.1
      · rcases bc with ⟨emptyB, -⟩ | ⟨q', r, payloadB', payloadC, inner'⟩
        · exact absurd emptyB (optionalPayload_some.mp payloadB).2.1
        · rw [payloadB] at payloadB'
          cases payloadB'
          exact .inr ⟨p, r, payloadA, payloadC, ih inner inner'⟩
    · rw [valueEqRec_plain m s optional] at ab ⊢
      rw [valueEqRec_plain m s (kind ▸ optional)] at bc
      exact leafEq_trans m s optional ab bc

/-- Values with plain values below them are equal if those are, and as deep, and within the depth of the
comparison. -/
theorem valueEqRec_core {n d e : Nat} {a b x y : CTFEValue} (left : Core m s a d x) (right : Core m s b e y) :
    valueEqRec m n a b s = true ↔ d = e ∧ d < n ∧ leafEq m s x y = true := by
  induction left generalizing b e n with
  | @here a plain =>
    cases n with
    | zero => exact ⟨nofun, fun holds => absurd holds.2.1 (Nat.not_lt_zero _)⟩
    | succ n =>
      rw [valueEqRec_plain m s plain]
      cases right with
      | here => exact ⟨fun equal => ⟨rfl, Nat.succ_pos _, equal⟩, fun holds => holds.2.2⟩
      | inner payload =>
        refine ⟨fun equal => ?_, fun holds => absurd holds.1 (Nat.succ_ne_zero _).symm⟩
        have kind := valueEqRec_kind m s equal
        exact absurd (kind.trans (optionalPayload_some.mp payload).1) plain
  | @inner a x p d payload rest ih =>
    have optional := (optionalPayload_some.mp payload).1
    cases n with
    | zero => exact ⟨nofun, fun holds => absurd holds.2.1 (Nat.not_lt_zero _)⟩
    | succ n =>
      cases right with
      | here plain =>
        refine ⟨fun equal => ?_, fun holds => absurd holds.1 (Nat.succ_ne_zero _)⟩
        exact absurd ((valueEqRec_kind m s equal).symm.trans optional) plain
      | inner payload' rest' =>
        have filled := (optionalPayload_some.mp payload).2.1
        rw [valueEqRec_optional_iff m s optional (optionalPayload_some.mp payload').1]
        constructor
        · rintro (⟨empty, -⟩ | ⟨p', q', atA, atB, inner⟩)
          · exact absurd empty filled
          · rw [payload] at atA
            rw [payload'] at atB
            cases atA
            cases atB
            obtain ⟨depth, small, equal⟩ := (ih rest').mp inner
            exact ⟨by omega, by omega, equal⟩
        · rintro ⟨depth, small, equal⟩
          exact .inr ⟨_, _, payload, payload', (ih rest').mpr ⟨by omega, by omega, equal⟩⟩

/-- An optional equal to one that holds a plain value holds an equal one, as deep. -/
theorem valueEqRec_below {n d : Nat} {a b x : CTFEValue} (equal : valueEqRec m n a b s = true)
    (left : Core m s a d x) : ∃ y, Core m s b d y ∧ leafEq m s x y = true := by
  induction left generalizing b n with
  | @here a plain =>
    cases n with
    | zero => cases equal
    | succ n =>
      have kind := valueEqRec_kind m s equal
      rw [valueEqRec_plain m s plain] at equal
      exact ⟨b, .here (kind ▸ plain), equal⟩
  | @inner a x p d payload rest ih =>
    cases n with
    | zero => cases equal
    | succ n =>
      have optional := (optionalPayload_some.mp payload).1
      rw [valueEqRec_optional_iff m s optional (valueEqRec_kind m s equal ▸ optional)] at equal
      rcases equal with ⟨empty, -⟩ | ⟨p', q, atA, atB, inner⟩
      · exact absurd empty (optionalPayload_some.mp payload).2.1
      · rw [payload] at atA
        cases atA
        obtain ⟨y, below, same⟩ := ih inner
        exact ⟨y, .inner atB below, same⟩

/-- Equal optionals are both empty or both not. -/
theorem valueEqRec_empty {n : Nat} {a b : CTFEValue} (equal : valueEqRec m n a b s = true)
    (optional : a.kind = .OPTIONAL) : a.b = 0 ↔ b.b = 0 := by
  cases n with
  | zero => cases equal
  | succ n =>
    rw [valueEqRec_optional_iff m s optional (valueEqRec_kind m s equal ▸ optional)] at equal
    rcases equal with ⟨left, right⟩ | ⟨p, q, atA, atB, -⟩
    · exact ⟨fun _ => right, fun _ => left⟩
    · have filledA := (optionalPayload_some.mp atA).2.1
      have filledB := (optionalPayload_some.mp atB).2.1
      exact ⟨fun empty => absurd empty filledA, fun empty => absurd empty filledB⟩

/-- What is equal to itself: no float that is not a number, and no optional around one, around a reference, an
aggregate, an array or a span without text, or around too many other optionals. -/
def SelfEqual : Nat → CTFEValue → Prop
  | 0, _ => False
  | depth + 1, v =>
    match v.kind with
    | .INT | .BOOL | .STRING | .TYPE | .NULL => True
    | .FLOAT => (v.f64 == v.f64) = true
    | .SPAN => v.span.fileLen = 0 ∨ v.span.fileBytes ≠ 0
    | .OPTIONAL => v.b = 0 ∨ v.s.bytes ≠ 0 ∧ SelfEqual depth (m.loadValue v.s.bytes s)
    | _ => False

theorem valueEqRec_self {n : Nat} {v : CTFEValue} : valueEqRec m n v v s = true ↔ SelfEqual m s n v := by
  induction n generalizing v with
  | zero => exact ⟨nofun, nofun⟩
  | succ n ih =>
    by_cases optional : v.kind = .OPTIONAL
    · rw [valueEqRec_optional_iff m s optional optional, SelfEqual, optional]
      dsimp only
      constructor
      · rintro (⟨empty, -⟩ | ⟨p, q, atP, atQ, inner⟩)
        · exact .inl empty
        · rw [atP] at atQ
          cases atQ
          obtain ⟨-, -, address, rfl⟩ := optionalPayload_some.mp atP
          exact .inr ⟨address, ih.mp inner⟩
      · intro self
        by_cases empty : v.b = 0
        · exact .inl ⟨empty, empty⟩
        · obtain ⟨address, inner⟩ := self.resolve_left empty
          have payload := optionalPayload_some.mpr ⟨optional, empty, address, rfl⟩
          exact .inr ⟨_, _, payload, payload, ih.mpr inner⟩
    · rw [valueEqRec_plain m s optional, leafEq_iff m s optional, SelfEqual]
      have strings := stringEq_refl m s v.s
      have text : SpanEq m s v.span v.span ↔ v.span.fileLen = 0 ∨ v.span.fileBytes ≠ 0 := by
        simp [SpanEq]
      have itself : v.plain.eq m s v.plain = match v.kind with
          | .INT | .BOOL | .STRING | .TYPE | .NULL => some true
          | .FLOAT => some (v.f64 == v.f64)
          | _ => none := by
        unfold CTFEValue.plain
        cases v.kind <;> first | rfl | exact congrArg some (decide_eq_true rfl) | exact congrArg some strings
      rw [itself]
      cases kind : v.kind <;> simp_all

end

end HopHop
