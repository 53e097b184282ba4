import HopHop.StringLitGrammar

namespace HopHop

theorem octalDigit_not_escape {c : UInt8} (digit : octalDigit c = true) :
    c ≠ Byte.newline ∧ c ≠ Byte.carriageReturn ∧ simpleEscape c = none ∧ c ≠ 0x78 ∧ c ≠ 0x75 ∧ c ≠ 0x55 := by
  rw [octalDigit_iff] at digit
  have different : ∀ d : UInt8, d.toNat < 0x30 ∨ 0x37 < d.toNat → c ≠ d := by
    rintro d bound rfl
    omega
  refine ⟨different _ (by decide), different _ (by decide), ?_, different _ (by decide), different _ (by decide),
    different _ (by decide)⟩
  unfold simpleEscape
  simp only [different 0x61 (by decide), different 0x62 (by decide), different 0x66 (by decide),
    different 0x6E (by decide), different 0x72 (by decide), different 0x74 (by decide), different 0x76 (by decide),
    different Byte.backslash (by decide), different Byte.doubleQuote (by decide),
    different Byte.singleQuote (by decide), if_false, or_self]

theorem simpleEscape_not_lineEnd {c b : UInt8} (simple : simpleEscape c = some b) :
    c ≠ Byte.newline ∧ c ≠ Byte.carriageReturn := by
  constructor <;>
  · rintro rfl
    rw [show simpleEscape _ = none by decide] at simple
    cases simple

/-- A line end starts with a line feed, or with a carriage return whose extent `crLen` computes. -/
theorem LineEnd.head {text rest : List UInt8} (lineEnd : LineEnd text rest) :
    text = [Byte.newline] ∨ ∃ tail, text = Byte.carriageReturn :: tail ∧ crLen (tail ++ rest) = text.length := by
  cases lineEnd with
  | lf => exact Or.inl rfl
  | crlf => exact Or.inr ⟨[Byte.newline], rfl, rfl⟩
  | cr alone => exact Or.inr ⟨[], rfl, by simp [crLen, alone]⟩

theorem unicodeEscape_complete (i stop : Nat) {digits : Nat} {word : List UInt8} (rest : List UInt8) {r : Char}
    (fits : digits ≤ 8) (length : word.length = digits) (number : hexNumber word = some r.toNat) :
    unicodeEscape i stop digits (word ++ rest) =
      .ok ⟨String.utf8EncodeChar r, i, i + 2 + digits, 2 + digits, by omega⟩ := by
  have range := Utf8.char_range r
  have decoded : decodeHex word = some r.val := by
    have value := @decodeHex_eq word (by omega)
    rw [number] at value
    obtain ⟨rune, same, toNat⟩ := Option.map_eq_some_iff.mp value
    rw [same]
    exact congrArg some (UInt32.toNat.inj toNat)
  have taken : (word ++ rest).take digits = word := by rw [← length, List.take_left]
  have scalar : ¬ (0x10FFFF < r.val ∨ (0xD800 ≤ r.val ∧ r.val ≤ 0xDFFF)) := by
    simp only [UInt32.le_iff_toNat_le, UInt32.lt_iff_toNat_lt, UInt32.reduceToNat]
    omega
  unfold unicodeEscape
  rw [if_neg (by rw [List.length_append]; omega), taken, decoded]
  simp only [if_neg scalar, runeToUtf8_char]

/-- What completeness of one decoder step means: the step reads exactly the given item. -/
def Reads (step : UInt8 → List UInt8 → Except StringLitErr LitItem) (word bytes rest : List UInt8) : Prop :=
  ∃ c tail item, word ++ rest = c :: tail ∧ step c tail = .ok item ∧ item.bytes = bytes ∧ item.len = word.length

theorem rawItem_complete (i : Nat) {word bytes rest : List UInt8} (grammar : RawItem word bytes rest) :
    Reads (fun c tail => .ok (rawItem i c tail)) word bytes rest := by
  cases grammar with
  | @plain c rest cr newline escaped =>
    refine ⟨c, rest, _, rfl, rfl, ?_⟩
    simp [rawItem, if_neg escaped, if_neg cr]
  | backquote => exact ⟨_, _, _, rfl, rfl, by simp [rawItem]⟩
  | lineEnd lineEnd =>
    rcases lineEnd.head with rfl | ⟨tail, rfl, extent⟩
    · exact ⟨_, _, _, rfl, rfl, by simp +decide [rawItem]⟩
    · refine ⟨_, _, _, rfl, rfl, ?_⟩
      simp +decide [rawItem, extent]

theorem escapeItem_complete (i stop : Nat) {word bytes rest : List UInt8}
    (grammar : InterpretedItem octalLimit (Byte.backslash :: word) bytes rest) :
    ∃ item, escapeItem i stop (word ++ rest) = .ok item ∧ item.bytes = bytes ∧ item.len = word.length + 1 := by
  cases grammar with
  | plain escape => exact absurd rfl escape
  | lineEnd lineEnd => rcases lineEnd.head with same | ⟨tail, same, _⟩ <;> cases same
  | elision lineEnd =>
    rcases lineEnd.head with rfl | ⟨tail, rfl, extent⟩
    · exact ⟨_, rfl, rfl, rfl⟩
    · refine ⟨⟨[], i, i + 1 + crLen (tail ++ rest), 1 + crLen (tail ++ rest), by omega⟩, rfl, rfl, ?_⟩
      simp only [extent, Nat.add_comm]
  | @simple c b _ member =>
    have simple := mem_simpleEscapes.mp member
    obtain ⟨newline, cr⟩ := simpleEscape_not_lineEnd simple
    refine ⟨⟨[b], i, i + 2, 2, by decide⟩, ?_, rfl, rfl⟩
    simp [escapeItem, newline, cr, simple]
  | @hex h l _ hi lo high low =>
    have joined := Nat.shiftLeft_add_eq_or_of_lt (i := 4) (hexDigit_lt low) hi
    rw [Nat.shiftLeft_eq] at joined
    refine ⟨⟨[UInt8.ofNat (hi * 16 + lo)], i, i + 4, 4, by decide⟩, ?_, rfl, rfl⟩
    change numericEscape i stop 0x78 (h :: l :: rest) = _
    simp only [numericEscape, if_true, hexEscape, high, low, Nat.shiftLeft_eq, ← joined]
  | @octal a b c _ octal bound =>
    obtain ⟨newline, cr, simple, hex, short, long⟩ := octalDigit_not_escape octal.1
    refine ⟨⟨[UInt8.ofNat (octalNumber a b c)], i, i + 4, 4, by decide⟩, ?_, rfl, rfl⟩
    simp only [List.cons_append, List.nil_append, escapeItem, newline, cr, simple, if_false, numericEscape, hex,
      short, long, octalEscape, octal.1, octal.2.1, octal.2.2, Bool.not_true, Bool.false_eq_true, and_self, if_true,
      octal.joined]
  | @unicodeShort digits _ r length number =>
    refine ⟨_, unicodeEscape_complete i stop rest (by decide) length number, rfl, ?_⟩
    simp only [List.length_cons, length]
  | @unicodeLong digits _ r length number =>
    refine ⟨_, unicodeEscape_complete i stop rest (by decide) length number, rfl, ?_⟩
    simp only [List.length_cons, length]

theorem InterpretedItem.escape_or_plain {octalMax : Nat} {word bytes rest : List UInt8}
    (grammar : InterpretedItem octalMax word bytes rest) :
    (∃ tail, word = Byte.backslash :: tail) ∨
      (∃ c, word = [c] ∧ bytes = [c] ∧ c ≠ Byte.backslash ∧ c ≠ Byte.carriageReturn ∧ c ≠ Byte.newline) ∨
      (LineEnd word rest ∧ bytes = [Byte.newline]) := by
  cases grammar with
  | @plain c _ escape cr newline => exact Or.inr (Or.inl ⟨c, rfl, rfl, escape, cr, newline⟩)
  | lineEnd lineEnd => exact Or.inr (Or.inr ⟨lineEnd, rfl⟩)
  | elision => exact Or.inl ⟨_, rfl⟩
  | simple => exact Or.inl ⟨_, rfl⟩
  | hex => exact Or.inl ⟨_, rfl⟩
  | octal => exact Or.inl ⟨_, rfl⟩
  | unicodeShort => exact Or.inl ⟨_, rfl⟩
  | unicodeLong => exact Or.inl ⟨_, rfl⟩

theorem interpretedItem_complete (i stop : Nat) {word bytes rest : List UInt8}
    (grammar : InterpretedItem octalLimit word bytes rest) : Reads (interpretedItem i stop) word bytes rest := by
  rcases grammar.escape_or_plain with ⟨tail, rfl⟩ | ⟨c, rfl, rfl, escape, cr, newline⟩ | ⟨lineEnd, rfl⟩
  · obtain ⟨item, run, value, length⟩ := escapeItem_complete i stop grammar
    exact ⟨_, _, item, rfl, run, value, length⟩
  · exact ⟨c, rest, ⟨[c], i, i + 1, 1, by decide⟩, rfl, by simp [interpretedItem, escape, cr], rfl, rfl⟩
  · rcases lineEnd.head with rfl | ⟨tail, rfl, extent⟩
    · exact ⟨_, _, _, rfl, rfl, rfl, rfl⟩
    · exact ⟨_, _, _, rfl, rfl, rfl, extent⟩

theorem nextItem_complete (i stop : Nat) {delim : UInt8} {word bytes rest : List UInt8}
    (grammar : GrammarItem octalLimit delim word bytes rest) : Reads (nextItem delim i stop) word bytes rest := by
  unfold GrammarItem at grammar
  unfold nextItem
  split_ifs at grammar ⊢ with raw
  · exact rawItem_complete i grammar
  · exact interpretedItem_complete i stop grammar

/-! The incremental UTF-8 check. Source ranges only matter for error messages, so acceptance is
studied on states that forget them. -/

def Utf8State.forget (st : Utf8State) : Utf8State :=
  { st with firstStart := 0, firstStop := 0 }

def feedAll (st : Utf8State) (bytes : List UInt8) : Option Utf8State :=
  bytes.foldlM (fun st b => (utf8Feed st b 0 0).toOption.map Utf8State.forget) st

theorem utf8Feed_forget (st : Utf8State) (b : UInt8) (start stop : Nat) :
    (utf8Feed st b start stop).toOption.map Utf8State.forget =
      (utf8Feed st.forget b 0 0).toOption.map Utf8State.forget := by
  have rejected : utf8TailRejected st.forget b = utf8TailRejected st b := rfl
  unfold utf8Feed
  rw [rejected]
  split_ifs <;> simp_all [Utf8State.forget, utf8Lead, Except.toOption]

theorem feedAll_cons (st : Utf8State) (b : UInt8) (bytes : List UInt8) :
    feedAll st (b :: bytes) = ((utf8Feed st b 0 0).toOption.map Utf8State.forget).bind (feedAll · bytes) := rfl

theorem feedAll_append (st : Utf8State) (first second : List UInt8) :
    feedAll st (first ++ second) = (feedAll st first).bind (feedAll · second) :=
  List.foldlM_append ..

section Emit

variable {σ : Type} (emit : σ → UInt8 → Option σ)

theorem emitBytes_eq (utf8 : Utf8State) (ctx : σ) (start stop : Nat) (bytes : List UInt8) :
    (emitBytes emit utf8 ctx start stop bytes).toOption.map (fun out => (out.1.forget, out.2)) =
      (feedAll utf8.forget bytes).bind fun st => (bytes.foldlM emit ctx).map fun ctx => (st, ctx) := by
  induction bytes generalizing utf8 ctx with
  | nil => rfl
  | cons b bytes ih =>
    have fed := utf8Feed_forget utf8 b start stop
    simp only [emitBytes, emitAndValidateByte, feedAll_cons, List.foldlM_cons, ← fed]
    cases feed : utf8Feed utf8 b start stop with
    | error err => rfl
    | ok next =>
      cases emitted : emit ctx b with
      | none =>
        change none = (feedAll next.forget bytes).bind fun _ => none
        cases feedAll next.forget bytes <;> rfl
      | some ctx' => exact ih next ctx'

/-- A run of the decoder loop reads the body as a sequence of items, feeds their bytes to the
UTF-8 check and hands them to `emit`. The induction follows the loop. -/
theorem decodeLoop_sound (delim : UInt8) (stop i : Nat) (utf8 : Utf8State) (ctx : σ) (body : List UInt8)
    {utf8' : Utf8State} {ctx' : σ} (run : decodeLoop emit delim stop i utf8 ctx body = .ok (utf8', ctx')) :
    ∃ out, Denotes octalLimit delim body out ∧ feedAll utf8.forget out = some utf8'.forget ∧
      out.foldlM emit ctx = some ctx' := by
  fun_induction decodeLoop emit delim stop i utf8 ctx body with
  | case1 => cases run; exact ⟨[], .nil, rfl, rfl⟩
  | case2 => cases run
  | case3 => cases run
  | case4 i utf8 ctx c rest item next utf8₁ ctx₁ emitted ih =>
    obtain ⟨out, denotes, fed, total⟩ := ih run
    obtain ⟨word, rest', split, grammar, length⟩ := nextItem_sound next
    have remaining : (c :: rest).drop item.len = rest' := by rw [split, length, List.drop_left]
    rw [remaining] at denotes
    have both := emitBytes_eq emit utf8 ctx item.start item.stop item.bytes
    rw [emitted] at both
    obtain ⟨st, feed, both⟩ := Option.bind_eq_some_iff.mp both.symm
    obtain ⟨ctx₂, emit₂, same⟩ := Option.map_eq_some_iff.mp both
    cases same
    refine ⟨item.bytes ++ out, by rw [split]; exact .cons grammar denotes, ?_, ?_⟩
    · rw [feedAll_append, feed]
      exact fed
    · rw [List.foldlM_append, emit₂]
      exact total

theorem decodeLoop_complete (delim : UInt8) (stop : Nat) {body out : List UInt8}
    (denotes : Denotes octalLimit delim body out) (i : Nat) (utf8 : Utf8State) (ctx : σ) {st : Utf8State} {ctx' : σ}
    (fed : feedAll utf8.forget out = some st) (total : out.foldlM emit ctx = some ctx') :
    ∃ utf8', decodeLoop emit delim stop i utf8 ctx body = .ok (utf8', ctx') ∧ utf8'.forget = st := by
  induction denotes generalizing i utf8 ctx with
  | nil =>
    cases fed
    cases total
    exact ⟨utf8, by rw [decodeLoop], rfl⟩
  | @cons word bytes rest out grammar _ ih =>
    obtain ⟨c, tail, item, split, next, value, length⟩ := nextItem_complete i stop grammar
    rw [feedAll_append] at fed
    rw [List.foldlM_append] at total
    obtain ⟨st₁, fed₁, fed⟩ := Option.bind_eq_some_iff.mp fed
    obtain ⟨ctx₁, total₁, total⟩ := Option.bind_eq_some_iff.mp total
    have both := emitBytes_eq emit utf8 ctx item.start item.stop item.bytes
    rw [value, fed₁] at both
    simp only [Option.bind_some, total₁, Option.map_some] at both
    obtain ⟨⟨utf8₁, ctx₂⟩, emitted, same⟩ := Option.map_eq_some_iff.mp both
    cases same
    have remaining : (c :: tail).drop item.len = rest := by rw [← split, length, List.drop_left]
    obtain ⟨utf8', run, final⟩ := ih (i + item.len) utf8₁ ctx₂ fed total
    refine ⟨utf8', ?_, final⟩
    rw [split, decodeLoop, next]
    simp only [value, remaining]
    cases step : emitBytes emit utf8 ctx item.start item.stop bytes with
    | error err => rw [step] at emitted; cases emitted
    | ok result =>
      rw [step] at emitted
      cases emitted
      exact run

end Emit

end HopHop
