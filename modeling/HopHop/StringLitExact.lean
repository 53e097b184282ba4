import HopHop.StringLitUtf8

namespace HopHop

/-- The range `[start, stop)` of the source is a literal with the given delimiter and body. -/
def IsLiteral (src : List UInt8) (start stop : Nat) (delim : UInt8) (body : List UInt8) : Prop :=
  (delim = Byte.doubleQuote ∨ delim = Byte.backquote ∨ delim = Byte.singleQuote) ∧
    (src.drop start).take (stop - start) = delim :: (body ++ [delim])

theorem IsLiteral.unique {src : List UInt8} {start stop : Nat} {delim delim' : UInt8} {body body' : List UInt8}
    (first : IsLiteral src start stop delim body) (second : IsLiteral src start stop delim' body') :
    delim = delim' ∧ body = body' := by
  have same := first.2.symm.trans second.2
  obtain ⟨rfl, tail⟩ := List.cons.inj same
  exact ⟨rfl, List.append_cancel_right tail⟩

/-- Cutting the first and the last element off a prefix of at least two elements. -/
theorem take_eq_cons_append {l : List UInt8} {n : Nat} (two : 2 ≤ n) (fits : n ≤ l.length) :
    l.take n = l.getD 0 0 :: ((l.drop 1).take (n - 2) ++ [l.getD (n - 1) 0]) := by
  obtain ⟨m, rfl⟩ : ∃ m, n = m + 2 := ⟨n - 2, by omega⟩
  cases l with
  | nil => simp at fits
  | cons c tail =>
    simp only [List.length_cons] at fits
    have inside : m < tail.length := by omega
    simp only [List.take_succ_cons, List.getD_cons_zero, List.drop_one, List.tail_cons, Nat.add_sub_cancel,
      show m + 2 - 1 = m + 1 from rfl, List.getD_cons_succ, List.cons.injEq, true_and]
    rw [List.getD_eq_getElem?_getD, List.getElem?_eq_getElem inside]
    exact (List.take_append_getElem inside).symm

theorem isLiteral_iff {src : List UInt8} {start stop : Nat} (bound : stop ≤ src.length) {delim : UInt8}
    {body : List UInt8} : IsLiteral src start stop delim body ↔
      ¬ stop ≤ start + 1 ∧ (delim = Byte.doubleQuote ∨ delim = Byte.backquote ∨ delim = Byte.singleQuote) ∧
        src.getD start 0 = delim ∧ src.getD (stop - 1) 0 = delim ∧
        (src.drop (start + 1)).take (stop - 1 - (start + 1)) = body := by
  have shape (long : ¬ stop ≤ start + 1) : (src.drop start).take (stop - start) =
      src.getD start 0 :: ((src.drop (start + 1)).take (stop - 1 - (start + 1)) ++ [src.getD (stop - 1) 0]) := by
    have cut := take_eq_cons_append (l := src.drop start) (n := stop - start) (by omega)
      (by rw [List.length_drop]; omega)
    rw [cut, List.drop_drop, show stop - start - 2 = stop - 1 - (start + 1) by omega]
    simp only [List.getD_eq_getElem?_getD, List.getElem?_drop, Nat.add_zero,
      show start + (stop - start - 1) = stop - 1 by omega]
  constructor
  · rintro ⟨quote, text⟩
    have length := congrArg List.length text
    simp only [List.length_take, List.length_drop, List.length_cons, List.length_append, List.length_nil] at length
    have long : ¬ stop ≤ start + 1 := by omega
    rw [shape long] at text
    obtain ⟨first, rest⟩ := List.cons.inj text
    obtain ⟨middle, last⟩ := List.append_inj' rest rfl
    exact ⟨long, quote, first, by simpa using last, middle⟩
  · rintro ⟨long, quote, first, last, middle⟩
    exact ⟨quote, by rw [shape long, first, last, middle]⟩

/-- The decoder accepts exactly the literals of the grammar that denote valid UTF-8, where octal
escapes run up to the largest three-digit value, and it emits the denoted bytes in order. -/
theorem decodeStringLiteralImpl_ok_iff {σ : Type} (emit : σ → UInt8 → Option σ) (ctx ctx' : σ) {src : List UInt8}
    {start stop : Nat} (bound : stop ≤ src.length) :
    decodeStringLiteralImpl emit ctx src start stop = .ok ctx' ↔
      ∃ delim body out, IsLiteral src start stop delim body ∧ Denotes octalLimit delim body out ∧
        Utf8.Valid out ∧ out.foldlM emit ctx = some ctx' := by
  unfold decodeStringLiteralImpl
  constructor
  · intro run
    split at run
    next => cases run
    next long =>
      simp only at run
      split at run
      next => cases run
      next quoted =>
        split at run
        next => cases run
        next utf8 ctx₁ loop =>
          split at run
          next => cases run
          next finish =>
            cases run
            obtain ⟨out, denotes, fed, total⟩ := decodeLoop_sound emit _ _ _ _ _ _ loop
            have idle : utf8.need = 0 := by
              unfold utf8Finish at finish
              by_contra busy
              rw [if_neg busy] at finish
              cases finish
            refine ⟨_, _, out, (isLiteral_iff bound).mpr ⟨long, ?_, rfl, by grind, rfl⟩, denotes,
              valid_of_feedAll _ (Nat.le_refl _) fed idle, total⟩
            grind
  · rintro ⟨delim, body, out, literal, denotes, valid, total⟩
    obtain ⟨long, quote, first, last, middle⟩ := (isLiteral_iff bound).mp literal
    obtain ⟨next, fed⟩ := Valid.feedAll valid 0
    obtain ⟨utf8, loop, idle⟩ := decodeLoop_complete emit delim stop denotes (start + 1) {} ctx fed total
    have finish : utf8Finish utf8 = .ok () := by
      have need : utf8.need = 0 := congrArg Utf8State.need idle
      simp only [utf8Finish, need, if_true]
    rw [if_neg long]
    simp only [first, last, middle]
    rw [if_neg (by grind), loop]
    simp only [finish]

theorem foldlM_byteBufEmit (out ctx : List UInt8) : out.foldlM byteBufEmit ctx = some (ctx ++ out) := by
  induction out generalizing ctx with
  | nil => simp
  | cons b out ih =>
    rw [List.foldlM_cons]
    change out.foldlM byteBufEmit (ctx ++ [b]) = _
    rw [ih, List.append_assoc]
    rfl

theorem decodeStringLiteral_ok_iff {src out : List UInt8} {start stop : Nat} (bound : stop ≤ src.length) :
    decodeStringLiteral src start stop = .ok out ↔
      ∃ delim body, IsLiteral src start stop delim body ∧ Denotes octalLimit delim body out ∧ Utf8.Valid out := by
  unfold decodeStringLiteral
  rw [decodeStringLiteralImpl_ok_iff byteBufEmit [] out bound]
  simp only [foldlM_byteBufEmit, List.nil_append, Option.some.injEq]
  constructor
  · rintro ⟨delim, body, out', literal, denotes, valid, rfl⟩
    exact ⟨delim, body, literal, denotes, valid⟩
  · rintro ⟨delim, body, literal, denotes, valid⟩
    exact ⟨delim, body, out, literal, denotes, valid, rfl⟩

/-! Octal escapes above the range of a byte. -/

/-- Largest value an octal escape may have in the language. -/
def byteMax : Nat := 255

/-- Read item by item, the body comes to an octal escape whose value does not fit a byte. -/
inductive LargeOctal (delim : UInt8) : List UInt8 → Prop
  | here {a b c rest} : delim ≠ Byte.backquote → IsOctal a b c → byteMax < octalNumber a b c →
      LargeOctal delim ([Byte.backslash, a, b, c] ++ rest)
  | later {word bytes rest} : GrammarItem octalLimit delim word bytes rest → LargeOctal delim rest →
      LargeOctal delim (word ++ rest)

theorem GrammarItem.mono {delim : UInt8} {word bytes rest : List UInt8}
    (grammar : GrammarItem byteMax delim word bytes rest) : GrammarItem octalLimit delim word bytes rest := by
  unfold GrammarItem at grammar ⊢
  split_ifs at grammar ⊢ with raw
  · exact grammar
  · cases grammar with
    | plain escape cr newline => exact .plain escape cr newline
    | lineEnd lineEnd => exact .lineEnd lineEnd
    | elision lineEnd => exact .elision lineEnd
    | simple member => exact .simple member
    | hex high low => exact .hex high low
    | octal octal bound => exact .octal octal octal.number_le
    | unicodeShort length number => exact .unicodeShort length number
    | unicodeLong length number => exact .unicodeLong length number

theorem Denotes.mono {delim : UInt8} {body out : List UInt8} (denotes : Denotes byteMax delim body out) :
    Denotes octalLimit delim body out := by
  induction denotes with
  | nil => exact .nil
  | cons grammar _ ih => exact .cons grammar.mono ih

/-- The first item of a text is determined by the text. -/
theorem GrammarItem.unique {delim : UInt8} {word word' bytes bytes' rest rest' : List UInt8}
    (first : GrammarItem octalLimit delim word bytes rest) (second : GrammarItem octalLimit delim word' bytes' rest')
    (same : word ++ rest = word' ++ rest') : word = word' ∧ bytes = bytes' ∧ rest = rest' := by
  obtain ⟨c, tail, item, split, run, value, length⟩ := nextItem_complete 0 0 first
  obtain ⟨c', tail', item', split', run', value', length'⟩ := nextItem_complete 0 0 second
  obtain ⟨rfl, rfl⟩ := List.cons.inj (split.symm.trans (same.trans split'))
  cases run.symm.trans run'
  obtain ⟨rfl, rfl⟩ := List.append_inj same (by omega)
  exact ⟨rfl, value.symm.trans value', rfl⟩

theorem GrammarItem.word_ne_nil {octalMax : Nat} {delim : UInt8} {word bytes rest : List UInt8}
    (grammar : GrammarItem octalMax delim word bytes rest) : word ≠ [] := by
  unfold GrammarItem at grammar
  split_ifs at grammar
  · cases grammar with
    | plain => simp
    | backquote => simp
    | lineEnd lineEnd => cases lineEnd <;> simp
  · rcases grammar.escape_or_plain with ⟨tail, rfl⟩ | ⟨c, rfl, _⟩ | ⟨lineEnd, _⟩
    · simp
    · simp
    · cases lineEnd <;> simp

theorem Denotes.of_append {octalMax : Nat} {delim : UInt8} {word bytes rest out : List UInt8}
    (mono : ∀ {word bytes rest}, GrammarItem octalMax delim word bytes rest →
      GrammarItem octalLimit delim word bytes rest)
    (grammar : GrammarItem octalLimit delim word bytes rest) (denotes : Denotes octalMax delim (word ++ rest) out) :
    ∃ out', GrammarItem octalMax delim word bytes rest ∧ out = bytes ++ out' ∧ Denotes octalMax delim rest out' := by
  generalize text : word ++ rest = body at denotes
  cases denotes with
  | nil => exact absurd (List.append_eq_nil_iff.mp text).1 grammar.word_ne_nil
  | @cons word' bytes' rest' out' grammar' denotes' =>
    obtain ⟨rfl, rfl, rfl⟩ := grammar.unique (mono grammar') text
    exact ⟨out', grammar', rfl, denotes'⟩

/-- In the grammar of the language no escape exceeds a byte. The induction is on the place of the
escape; uniqueness of items carries the derivation of the body along. -/
theorem Denotes.not_large {delim : UInt8} {body out : List UInt8} (denotes : Denotes byteMax delim body out) :
    ¬ LargeOctal delim body := by
  intro large
  induction large generalizing out with
  | @here a b c rest raw octal above =>
    have item : GrammarItem octalLimit delim [Byte.backslash, a, b, c] [UInt8.ofNat (octalNumber a b c)] rest := by
      unfold GrammarItem
      rw [if_neg raw]
      exact .octal octal octal.number_le
    obtain ⟨_, small, _, _⟩ := denotes.of_append GrammarItem.mono item
    unfold GrammarItem at small
    rw [if_neg raw] at small
    obtain ⟨_, _, _, hex, _, _⟩ := octalDigit_not_escape octal.1
    generalize [UInt8.ofNat (octalNumber a b c)] = bytes at small
    cases small with
    | lineEnd lineEnd => cases lineEnd
    | elision lineEnd => cases lineEnd
    | hex => exact hex rfl
    | octal _ bound => exact absurd bound (by omega)
    | unicodeShort length => simp at length
    | unicodeLong length => simp at length
  | later grammar _ ih =>
    obtain ⟨_, _, _, denotes'⟩ := denotes.of_append GrammarItem.mono grammar
    exact ih denotes'

theorem Denotes.small_or_large {delim : UInt8} {body out : List UInt8} (denotes : Denotes octalLimit delim body out) :
    Denotes byteMax delim body out ∨ LargeOctal delim body := by
  induction denotes with
  | nil => exact Or.inl .nil
  | @cons word bytes rest out grammar _ ih =>
    rcases ih with small | large
    · have split : GrammarItem byteMax delim word bytes rest ∨ LargeOctal delim (word ++ rest) := by
        unfold GrammarItem at grammar ⊢
        split_ifs at grammar ⊢ with raw
        · exact Or.inl grammar
        · cases grammar with
          | plain escape cr newline => exact Or.inl (.plain escape cr newline)
          | lineEnd lineEnd => exact Or.inl (.lineEnd lineEnd)
          | elision lineEnd => exact Or.inl (.elision lineEnd)
          | simple member => exact Or.inl (.simple member)
          | hex high low => exact Or.inl (.hex high low)
          | @octal a b c _ octal bound =>
            by_cases fits : octalNumber a b c ≤ byteMax
            · exact Or.inl (.octal octal fits)
            · exact Or.inr (.here raw octal (by omega))
          | unicodeShort length number => exact Or.inl (.unicodeShort length number)
          | unicodeLong length number => exact Or.inl (.unicodeLong length number)
      rcases split with item | large
      · exact Or.inl (.cons item small)
      · exact Or.inr large
    · exact Or.inr (.later grammar large)

/-- The decoder agrees with the language on a source range: it succeeds exactly on the literals
whose items denote valid UTF-8, and emits exactly the denoted bytes. -/
def DecodesExactly (src : List UInt8) (start stop : Nat) : Prop :=
  ∀ out, decodeStringLiteral src start stop = .ok out ↔
    ∃ delim body, IsLiteral src start stop delim body ∧ Denotes byteMax delim body out ∧ Utf8.Valid out

/-- An escaped value above a byte that goes unnoticed: the rest of the body is well formed, and
the bytes left after dropping the high bits are valid UTF-8. -/
def TruncatedOctal (src : List UInt8) (start stop : Nat) : Prop :=
  ∃ delim body out, IsLiteral src start stop delim body ∧ LargeOctal delim body ∧
    Denotes octalLimit delim body out ∧ Utf8.Valid out

theorem decodesExactly_iff {src : List UInt8} {start stop : Nat} (bound : stop ≤ src.length) :
    DecodesExactly src start stop ↔ ¬ TruncatedOctal src start stop := by
  constructor
  · rintro exactly ⟨delim, body, out, literal, large, denotes, valid⟩
    have run := (decodeStringLiteral_ok_iff bound).mpr ⟨delim, body, literal, denotes, valid⟩
    obtain ⟨delim', body', literal', small, _⟩ := (exactly out).mp run
    obtain ⟨rfl, rfl⟩ := literal.unique literal'
    exact small.not_large large
  · intro untruncated out
    rw [decodeStringLiteral_ok_iff bound]
    constructor
    · rintro ⟨delim, body, literal, denotes, valid⟩
      rcases denotes.small_or_large with small | large
      · exact ⟨delim, body, literal, small, valid⟩
      · exact absurd ⟨delim, body, out, literal, large, denotes, valid⟩ untruncated
    · rintro ⟨delim, body, literal, denotes, valid⟩
      exact ⟨delim, body, literal, denotes.mono, valid⟩

theorem decodesExactly_hex : DecodesExactly (bytesOf "\"\\x41\"") 0 6 := by
  refine (decodesExactly_iff (by decide)).mpr ?_
  rintro ⟨delim, body, out, literal, large, _⟩
  have expected : IsLiteral (bytesOf "\"\\x41\"") 0 6 Byte.doubleQuote [Byte.backslash, 0x78, 0x34, 0x31] :=
    ⟨Or.inl rfl, by decide⟩
  obtain ⟨rfl, rfl⟩ := literal.unique expected
  have item : GrammarItem byteMax Byte.doubleQuote [Byte.backslash, 0x78, 0x34, 0x31] [0x41] [] :=
    @InterpretedItem.hex byteMax 0x34 0x31 [] 4 1 (by decide) (by decide)
  exact (Denotes.cons item .nil).not_large large

theorem not_decodesExactly_octal : ¬ DecodesExactly (bytesOf "\"\\501\"") 0 6 := by
  intro exactly
  have run : decodeStringLiteral (bytesOf "\"\\501\"") 0 6 = .ok [0x41] := by decide +kernel
  obtain ⟨delim, body, literal, small, _⟩ := (exactly _).mp run
  have expected : IsLiteral (bytesOf "\"\\501\"") 0 6 Byte.doubleQuote [Byte.backslash, 0x35, 0x30, 0x31] :=
    ⟨Or.inl rfl, by decide⟩
  obtain ⟨rfl, rfl⟩ := literal.unique expected
  exact small.not_large (@LargeOctal.here _ 0x35 0x30 0x31 [] (by decide) ⟨by decide, by decide, by decide⟩ (by decide))

end HopHop
