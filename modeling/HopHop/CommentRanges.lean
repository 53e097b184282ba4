import HopHop.CommentScan

namespace HopHop

/-! Runes. A rune literal that decodes holds a single code point, so it has no room for the two
bytes that open a comment. -/

def isAscii (b : UInt8) : Bool :=
  b ≤ 0x7F

/-- A byte that takes part in opening a comment. -/
def isCommentMark (c : UInt8) : Bool :=
  c = Byte.slash || c = Byte.star

theorem isAscii_iff {b : UInt8} : isAscii b = true ↔ b.toNat ≤ 0x7F := by
  simp [isAscii, UInt8.le_iff_toNat_le]

theorem collect_one (c : RuneCollector) (idle : c.seqNeed = 0) {a : UInt8} (ascii : a.toNat ≤ 0x7F) :
    ∃ c', runeCollectorEmit c a = some c' ∧ c'.seqNeed = 0 ∧ c'.codepointCount = c.codepointCount + 1 := by
  rw [runeCollectorEmit, if_pos idle, if_pos (UInt8.le_iff_toNat_le.mpr ascii)]
  exact ⟨_, rfl, idle, rfl⟩

theorem collect_lead (c : RuneCollector) (idle : c.seqNeed = 0) {a : UInt8} {need : Nat}
    (lead : need = 2 ∧ 0xC2 ≤ a.toNat ∧ a.toNat ≤ 0xDF ∨ need = 3 ∧ 0xE0 ≤ a.toNat ∧ a.toNat ≤ 0xEF ∨
      need = 4 ∧ 0xF0 ≤ a.toNat ∧ a.toNat ≤ 0xF4) :
    ∃ c', runeCollectorEmit c a = some c' ∧ c'.seqNeed = need ∧ c'.seqGot = 1 ∧
      c'.codepointCount = c.codepointCount := by
  rw [runeCollectorEmit, if_pos idle]
  simp only [UInt8.le_iff_toNat_le, UInt8.reduceToNat]
  rw [if_neg (by omega)]
  rcases lead with ⟨rfl, low, high⟩ | ⟨rfl, low, high⟩ | ⟨rfl, low, high⟩
  · rw [if_pos ⟨low, high⟩]
    exact ⟨_, rfl, rfl, rfl, rfl⟩
  · rw [if_neg (by omega), if_pos ⟨low, high⟩]
    exact ⟨_, rfl, rfl, rfl, rfl⟩
  · rw [if_neg (by omega), if_neg (by omega), if_pos ⟨low, high⟩]
    exact ⟨_, rfl, rfl, rfl, rfl⟩

theorem collect_inner (c : RuneCollector) {need : Nat} (busy : c.seqNeed = need) (open_ : 0 < need) (b : UInt8)
    (more : c.seqGot + 1 < need) :
    ∃ c', runeCollectorEmit c b = some c' ∧ c'.seqNeed = need ∧ c'.seqGot = c.seqGot + 1 ∧
      c'.codepointCount = c.codepointCount := by
  rw [runeCollectorEmit, if_neg (by omega)]
  simp only
  rw [if_neg (by omega)]
  exact ⟨_, rfl, busy, rfl, rfl⟩

theorem collect_last (c : RuneCollector) {need : Nat} (busy : c.seqNeed = need) (open_ : 0 < need) (b : UInt8)
    (last : c.seqGot + 1 = need) :
    ∃ c', runeCollectorEmit c b = some c' ∧ c'.seqNeed = 0 ∧ c'.codepointCount = c.codepointCount + 1 := by
  rw [runeCollectorEmit, if_neg (by omega)]
  simp only
  rw [if_pos (by omega)]
  exact ⟨_, rfl, rfl, rfl⟩

/-- One encoded scalar value is counted once, and has at most one ASCII byte. -/
theorem collect_form {form : List UInt8} (shape : Utf8.Form form) (c : RuneCollector) (idle : c.seqNeed = 0) :
    (∃ c', form.foldlM runeCollectorEmit c = some c' ∧ c'.seqNeed = 0 ∧ c'.codepointCount = c.codepointCount + 1) ∧
      form.countP isAscii ≤ 1 := by
  have notAscii {b : UInt8} (high : 0x80 ≤ b.toNat) : isAscii b = false := by
    rw [← Bool.not_eq_true, isAscii_iff]
    omega
  cases shape with
  | @one a ascii =>
    obtain ⟨c', run, done, count⟩ := collect_one c idle ascii
    exact ⟨⟨c', by simp [run], done, count⟩, List.countP_le_length⟩
  | @two a b low high tail =>
    obtain ⟨c₁, first, need, got, count₁⟩ := collect_lead c idle (Or.inl ⟨rfl, low, high⟩)
    obtain ⟨c₂, second, done, count₂⟩ := collect_last c₁ need (by omega) b (by omega)
    refine ⟨⟨c₂, by simp [first, second], done, by omega⟩, ?_⟩
    simp [notAscii (show 0x80 ≤ a.toNat by omega), notAscii tail.1]
  | @three a b d low high second tail =>
    obtain ⟨c₁, first, need, got, count₁⟩ := collect_lead c idle (Or.inr (Or.inl ⟨rfl, low, high⟩))
    obtain ⟨c₂, next, need₂, got₂, count₂⟩ := collect_inner c₁ need (by omega) b (by omega)
    obtain ⟨c₃, last, done, count₃⟩ := collect_last c₂ need₂ (by omega) d (by omega)
    refine ⟨⟨c₃, by simp [first, next, last], done, by omega⟩, ?_⟩
    simp [notAscii (show 0x80 ≤ a.toNat by omega), notAscii second.isTail.1, notAscii tail.1]
  | @four a b d e low high second tail tail' =>
    obtain ⟨c₁, first, need, got, count₁⟩ := collect_lead c idle (Or.inr (Or.inr ⟨rfl, low, high⟩))
    obtain ⟨c₂, next, need₂, got₂, count₂⟩ := collect_inner c₁ need (by omega) b (by omega)
    obtain ⟨c₃, next', need₃, got₃, count₃⟩ := collect_inner c₂ need₂ (by omega) d (by omega)
    obtain ⟨c₄, last, done, count₄⟩ := collect_last c₃ need₃ (by omega) e (by omega)
    refine ⟨⟨c₄, by simp [first, next, next', last], done, by omega⟩, ?_⟩
    simp [notAscii (show 0x80 ≤ a.toNat by omega), notAscii second.isTail.1, notAscii tail.1, notAscii tail'.1]

/-- The collector counts the scalar values, of which there are at least as many as ASCII bytes. -/
theorem ascii_le_count {out : List UInt8} (valid : Utf8.Valid out) :
    ∀ {c c' : RuneCollector}, c.seqNeed = 0 → out.foldlM runeCollectorEmit c = some c' →
      c.codepointCount + out.countP isAscii ≤ c'.codepointCount := by
  obtain ⟨text, rfl⟩ := valid
  induction text with
  | nil =>
    intro c c' _ run
    cases run
    exact Nat.le_refl _
  | cons r text ih =>
    intro c c' idle run
    obtain ⟨⟨c₁, first, idle₁, count⟩, single⟩ := collect_form (Utf8.form_utf8EncodeChar r) c idle
    rw [Utf8.encode, List.flatMap_cons, List.foldlM_append, first] at run
    have rest := ih idle₁ run
    rw [Utf8.encode, List.flatMap_cons, List.countP_append]
    change _ ≤ _ at rest
    rw [Utf8.encode] at rest
    omega

theorem hexDigit_not_mark {c : UInt8} {d : Nat} (digit : hexDigit c = some d) : isCommentMark c = false := by
  rw [← Bool.not_eq_true]
  simp only [isCommentMark, Bool.or_eq_true, decide_eq_true_eq]
  rintro (rfl | rfl) <;> cases digit

theorem octalDigit_not_mark {c : UInt8} (digit : octalDigit c = true) : isCommentMark c = false := by
  rw [← Bool.not_eq_true]
  simp only [isCommentMark, Bool.or_eq_true, decide_eq_true_eq]
  rintro (rfl | rfl) <;> cases digit

theorem hexNumber_no_mark {digits : List UInt8} {n : Nat} (number : hexNumber digits = some n) :
    digits.countP isCommentMark = 0 := by
  rw [List.countP_eq_zero]
  intro c member
  obtain ⟨d, digit⟩ := hexNumber_digits number c member
  rw [hexDigit_not_mark digit]
  exact Bool.false_ne_true

/-- A comment mark in the body of a literal stands for itself. -/
theorem Denotes.marks_le {octalMax : Nat} {body out : List UInt8} (denotes : Denotes octalMax Byte.singleQuote body out) :
    body.countP isCommentMark ≤ out.countP isAscii := by
  induction denotes with
  | nil => exact Nat.le_refl _
  | @cons word bytes rest out grammar _ ih =>
    rw [List.countP_append, List.countP_append]
    suffices item : word.countP isCommentMark ≤ bytes.countP isAscii by omega
    rw [GrammarItem, if_neg (by decide)] at grammar
    cases grammar with
    | @plain c _ escape _ _ =>
      by_cases mark : isCommentMark c = true
      · have ascii : isAscii c = true := by
          simp only [isCommentMark, Bool.or_eq_true, decide_eq_true_eq] at mark
          rcases mark with rfl | rfl <;> decide
        simp [mark, ascii]
      · simp [mark]
    | lineEnd lineEnd => cases lineEnd <;> decide
    | elision lineEnd => cases lineEnd <;> decide
    | @simple c b _ member =>
      have mark : isCommentMark c = false := by
        rw [← Bool.not_eq_true]
        simp only [isCommentMark, Bool.or_eq_true, decide_eq_true_eq]
        rintro (rfl | rfl) <;> cases mem_simpleEscapes.mp member
      simp [mark, show isCommentMark Byte.backslash = false by decide]
    | hex high low =>
      simp [hexDigit_not_mark high, hexDigit_not_mark low, show isCommentMark Byte.backslash = false by decide,
        show isCommentMark 0x78 = false by decide]
    | octal octal _ =>
      simp [octalDigit_not_mark octal.1, octalDigit_not_mark octal.2.1, octalDigit_not_mark octal.2.2,
        show isCommentMark Byte.backslash = false by decide]
    | unicodeShort _ number =>
      simp [hexNumber_no_mark number, show isCommentMark Byte.backslash = false by decide,
        show isCommentMark 0x75 = false by decide]
    | unicodeLong _ number =>
      simp [hexNumber_no_mark number, show isCommentMark Byte.backslash = false by decide,
        show isCommentMark 0x55 = false by decide]

/-- The source bytes `[start, stop)` hold no delimiter of a string literal. -/
def NoStringQuote (src : List UInt8) (start stop : Nat) : Prop :=
  ∀ i < stop, start ≤ i → src[i]? ≠ some Byte.doubleQuote ∧ src[i]? ≠ some Byte.backquote

instance (src : List UInt8) (start stop : Nat) : Decidable (NoStringQuote src start stop) :=
  inferInstanceAs (Decidable (∀ i < stop, start ≤ i → _))

/-- An accepted rune literal, quotes included, has at most one comment mark. -/
theorem rune_marks {src tail : List UInt8} {start n : Nat} {rune : UInt32}
    (suffix : Byte.singleQuote :: tail = src.drop start) (inside : n ≤ tail.length)
    (decoded : decodeRuneLiteralValidate src start (start + 1 + n) = .ok rune) :
    ((Byte.singleQuote :: tail).take (n + 1)).countP isCommentMark ≤ 1 ∧
      (Byte.singleQuote :: tail)[n]? = some Byte.singleQuote := by
  rw [decodeRuneLiteralValidate] at decoded
  split at decoded
  next => cases decoded
  next collector impl =>
    split at decoded
    next => cases decoded
    next =>
      split at decoded
      next => cases decoded
      next single =>
        obtain ⟨delim, body, out, literal, denotes, valid, total⟩ :=
          (decodeStringLiteralImpl_ok_iff _ _ _ (scan_bound suffix inside)).mp impl
        have text := literal.2
        rw [← suffix, show start + 1 + n - start = n + 1 by omega] at text
        obtain rfl : delim = Byte.singleQuote := by
          rw [List.take_succ_cons] at text
          exact (List.cons.inj text).1.symm
        have count := ascii_le_count valid rfl total
        have marks := denotes.marks_le
        have bodyLength : body.length + 2 = n + 1 := by
          have length := congrArg List.length text
          simp only [List.length_take, List.length_cons, List.length_append, List.length_nil] at length
          omega
        refine ⟨?_, ?_⟩
        · rw [text]
          simp only [List.countP_cons, List.countP_append, List.countP_nil,
            show isCommentMark Byte.singleQuote = false by decide, Bool.false_eq_true, if_false]
          have counted : collector.codepointCount = 1 := by simpa using single
          have zero : ({} : RuneCollector).codepointCount = 0 := rfl
          omega
        · have last : ((Byte.singleQuote :: tail).take (n + 1))[n]? = some Byte.singleQuote := by
            rw [text, List.getElem?_cons, if_neg (by omega), List.getElem?_append_right (by omega),
              show n - 1 - body.length = 0 by omega]
            rfl
          rwa [List.getElem?_take_of_lt (by omega)] at last

/-- The comment scan passes over a rune literal byte by byte if no byte of it looks like the
delimiter of a string. -/
theorem nextCommentRange_rune {src tail : List UInt8} {start n : Nat} {rune : UInt32} (pos : Nat)
    (suffix : Byte.singleQuote :: tail = src.drop start) (inside : n ≤ tail.length)
    (decoded : decodeRuneLiteralValidate src start (start + 1 + n) = .ok rune)
    (clear : NoStringQuote src start (start + 1 + n)) :
    nextCommentRange (Byte.singleQuote :: tail) pos = nextCommentRange (tail.drop n) (pos + 1 + n) := by
  obtain ⟨marks, last⟩ := rune_marks suffix inside decoded
  have whole := @nextCommentRange_passes (Byte.singleQuote :: tail) (n + 1) pos
    (by rw [List.length_cons]; omega) ?_
  · rw [whole, List.drop_succ_cons, show pos + (n + 1) = pos + 1 + n by omega]
  intro i below d more text
  have here : (Byte.singleQuote :: tail)[i]? = some d := by
    rw [← List.head?_drop, text]
    rfl
  have atSource : src[start + i]? = some d := by
    rw [suffix, List.getElem?_drop] at here
    exact here
  obtain ⟨quote, raw⟩ := clear (start + i) (by omega) (by omega)
  refine ⟨fun same => quote (same ▸ atSource), fun same => raw (same ▸ atSource), ?_⟩
  rintro ⟨rfl, second⟩
  by_cases final : i = n
  · subst final
    cases here.symm.trans last
  · obtain ⟨e, mark, next⟩ : ∃ e, isCommentMark e = true ∧ more.head? = some e := by
      rcases second with slash | star
      · exact ⟨_, by decide, slash⟩
      · exact ⟨_, by decide, star⟩
    obtain ⟨rest, rfl⟩ := exists_tail next
    have two : 2 ≤ (((Byte.singleQuote :: tail).take (n + 1)).drop i).countP isCommentMark := by
      rw [List.drop_take, text, show n + 1 - i = (n - 1 - i) + 2 by omega, List.take_succ_cons, List.take_succ_cons,
        List.countP_cons_of_pos (by decide), List.countP_cons_of_pos mark]
      omega
    have sub := (List.drop_sublist i ((Byte.singleQuote :: tail).take (n + 1))).countP_le (p := isCommentMark)
    omega

theorem skipBlockComment_any {rest rest' : List UInt8} {pos depth pos' : Nat} {newline newline' : Option Nat}
    (run : skipBlockComment rest pos depth newline = .ok (rest', pos', newline')) (other : Option Nat) :
    ∃ other', skipBlockComment rest pos depth other = .ok (rest', pos', other') := by
  fun_induction skipBlockComment rest pos depth newline generalizing other with
  | case1 => cases run
  | case2 pos depth newline c rest opens ih =>
    rw [skipBlockComment, if_pos opens]
    exact ih run _
  | case3 pos newline c rest opens closes =>
    cases run
    rw [skipBlockComment, if_neg opens, if_pos closes, if_pos rfl]
    exact ⟨_, rfl⟩
  | case4 pos depth newline c rest opens closes inner ih =>
    rw [skipBlockComment, if_neg opens, if_pos closes, if_neg inner]
    exact ih run _
  | case5 pos depth newline c rest opens closes ih =>
    rw [skipBlockComment, if_neg opens, if_neg closes]
    exact ih run _

theorem passes_of_white {c : UInt8} (white : isWhitespace c = true) (tail : List UInt8) : Passes c tail :=
  passes_of_plain (isPlain_of (by decide) c white) tail

/-- Scanning for comments over the gap before a token yields its comments. -/
theorem commentRanges_gap {rest : List UInt8} {pos : Nat} {newline : Option Nat} {t : Trivia}
    (run : skipTrivia rest pos newline = .ok t) :
    commentRanges rest pos = t.comments ++ commentRanges t.rest t.pos := by
  fun_induction skipTrivia rest pos newline generalizing t with
  | case1 => cases run; rfl
  | case2 pos newline c tail blank ih =>
    rw [commentRanges_congr (nextCommentRange_pass (passes_of_white (by simp [isWhitespace, blank]) tail) pos)]
    exact ih run
  | case3 pos newline tail blank ih =>
    rw [commentRanges_congr (nextCommentRange_pass (passes_of_white (by decide) tail) pos)]
    exact ih run
  | case4 => cases run
  | case5 pos newline c tail blank ends line n t' next =>
    rename_i ih
    cases run
    obtain ⟨rfl, slash⟩ := line
    have found : nextCommentRange (Byte.slash :: tail) pos = some ⟨pos, pos + 2 + n, tail.tail.drop n⟩ := by
      rw [nextCommentRange, if_neg (by decide), if_neg (by decide), if_pos ⟨rfl, slash⟩]
    rw [commentRanges_some found, ih next]
    rfl
  | case6 => cases run
  | case7 => cases run
  | case8 pos newline c tail blank ends line block rest' pos' newline' comment t' next ih =>
    cases run
    obtain ⟨rfl, star⟩ := block
    obtain ⟨other, same⟩ := skipBlockComment_any comment none
    have found : nextCommentRange (Byte.slash :: tail) pos = some ⟨pos, pos', rest'⟩ := by
      rw [nextCommentRange, if_neg (by decide), if_neg (by decide), if_neg line, if_pos ⟨rfl, star⟩, same]
    rw [commentRanges_some found, ih next]
    rfl
  | case9 => cases run; rfl

/-- The comment scan passes over an accepted token without finding a comment in it. -/
theorem nextCommentRange_token {src tail : List UInt8} {start : Nat} {c : UInt8} {s : Scanned} (pos : Nat)
    (suffix : c :: tail = src.drop start) (starts : StartsToken (c :: tail))
    (scanned : scanToken src start c tail = .ok s)
    (clear : s.kind = .RUNE → NoStringQuote src start (start + 1 + s.more)) :
    nextCommentRange (c :: tail) pos = nextCommentRange (tail.drop s.more) (pos + 1 + s.more) := by
  have inside := (scanToken_fits scanned).1
  unfold scanToken at scanned
  split_ifs at scanned with ident number rune string
  · cases scanned
    have plain : isPlain c = true := by
      rcases ident with alpha | rfl
      · exact isPlain_of (by decide) c alpha
      · decide
    exact nextCommentRange_plain pos (passes_of_plain plain tail) (plainUpTo_span (isPlain_of (by decide)) tail) inside
  · exact nextCommentRange_plain pos (passes_of_plain (isPlain_of (by decide) c number) tail) (number_plain scanned) inside
  · subst rune
    rw [scanRune] at scanned
    split at scanned
    next => cases scanned
    next n found =>
      split at scanned
      next => cases scanned
      next =>
        split at scanned
        next => cases scanned
        next decoded =>
          cases scanned
          exact nextCommentRange_rune pos suffix inside decoded (clear rfl)
  · rw [scanString] at scanned
    by_cases raw : c = Byte.backquote
    · subst raw
      rw [nextCommentRange, if_neg (by decide), if_pos rfl]
      simp only [if_true] at scanned
      split at scanned
      next => cases scanned
      next =>
        split at scanned
        next => cases scanned
        next => cases scanned; rfl
    · obtain rfl : c = Byte.doubleQuote := string.resolve_right raw
      rw [nextCommentRange, if_pos rfl]
      simp only [if_neg raw] at scanned
      split at scanned
      next => cases scanned
      next n found =>
        split at scanned
        next => cases scanned
        next =>
          split at scanned
          next => cases scanned
          next =>
            cases scanned
            rw [found]
            rfl
  · have passes : Passes c tail := ⟨fun quote => string (Or.inl quote), fun raw => string (Or.inr raw),
      (starts c tail rfl).2⟩
    exact nextCommentRange_plain pos passes (punct_plain s scanned) inside

/-- The comment scan keeps up with the scanner round by round. -/
theorem commentRanges_lexLoop {src : List UInt8} {room : Nat} {st : LexState} {prev : TokenKind} {lexed : Lexed}
    (run : lexLoop src room st prev = .ok lexed) (suffix : st.rest = src.drop st.pos) (bound : st.pos ≤ src.length)
    (clear : ∀ tok ∈ lexed.tokens, tok.kind = .RUNE → NoStringQuote src tok.start tok.stop) :
    commentRanges st.rest st.pos = lexed.comments := by
  fun_induction lexLoop src room st prev generalizing lexed with
  | case1 => cases run
  | case2 => cases run
  | case3 room st prev r round room' last =>
    cases run
    obtain ⟨t, skipped, step⟩ := lexRound_ok_iff.mp round
    rw [commentRanges_gap skipped]
    cases step with
    | newline | final | token => cases last
    | eof ends atEnd =>
      rw [atEnd, commentRanges_none (by rw [nextCommentRange]), List.append_nil]
  | case4 room st prev r round room' st' next ih =>
    obtain ⟨inner, continued, rfl⟩ := map_ok run
    obtain ⟨t, skipped, step⟩ := lexRound_ok_iff.mp round
    obtain ⟨gap, final, inside, starts, _⟩ := skipTrivia_spec skipped suffix bound
    have later : ∀ tok ∈ inner.tokens, tok.kind = .RUNE → NoStringQuote src tok.start tok.stop :=
      fun tok member => clear tok (List.mem_cons_of_mem _ member)
    rw [commentRanges_gap skipped]
    have comments : r.comments = t.comments := by cases step <;> rfl
    suffices same : commentRanges t.rest t.pos = inner.comments by
      rw [same, ← comments]
      rfl
    cases step with
    | newline =>
      cases next
      exact ih continued final inside later
    | final _ _ atEnd _ =>
      cases next
      rw [atEnd] at final ⊢
      exact ih continued final inside later
    | eof => cases next
    | @token c tail s _ unread scanned =>
      cases next
      obtain ⟨here, text, within, _⟩ := drop_eq_cons (unread.symm.trans final)
      have passed := nextCommentRange_token t.pos (unread.symm.trans final) (unread ▸ starts) scanned
        fun kind => clear _ List.mem_cons_self kind
      rw [unread, commentRanges_congr passed]
      exact ih continued (by simp only [text, List.drop_drop])
        (scan_bound (unread.symm.trans final) (scanToken_fits scanned).1) later

/-- The collected comment ranges are the comments the scanner skipped, each of them well formed
and outside every token. -/
structure CollectsComments (src : List UInt8) (lexed : Lexed) : Prop where
  same : commentRanges src 0 = lexed.comments
  shaped : ∀ range ∈ commentRanges src 0, IsComment src range.1 range.2
  apart : ∀ range ∈ commentRanges src 0, ∀ tok ∈ lexed.tokens, tok.start < tok.stop →
    tok.stop ≤ range.1 ∨ range.2 ≤ tok.start

theorem collectsComments_of_clear {src : List UInt8} {lexed : Lexed} (run : lexRun src = .ok lexed)
    (clear : ∀ tok ∈ lexed.tokens, tok.kind = .RUNE → NoStringQuote src tok.start tok.stop) :
    CollectsComments src lexed := by
  have same : commentRanges src 0 = lexed.comments := commentRanges_lexLoop run rfl (Nat.zero_le _) clear
  have partition := lexRun_faithful run
  refine ⟨same, fun range member => ?_, fun range member => ?_⟩
  · rw [same] at member
    exact (partition.skipped range member).1
  · rw [same] at member
    exact (partition.skipped range member).2

theorem collectsComments_escapes : CollectsComments (bytesOf "'/' \"//\" /* ' */")
    ⟨[⟨.RUNE, 0, 3⟩, ⟨.STRING, 4, 8⟩, ⟨.SEMICOLON, 16, 16⟩, ⟨.EOF, 16, 16⟩], [(9, 16)]⟩ :=
  collectsComments_of_clear (by decide +kernel) (by decide +kernel)

/-- A rune literal that holds a double quote hides the comment behind it. -/
theorem not_collectsComments_quote :
    lexRun (bytesOf "'\"' // c") = .ok ⟨[⟨.RUNE, 0, 3⟩, ⟨.SEMICOLON, 8, 8⟩, ⟨.EOF, 8, 8⟩], [(4, 8)]⟩ ∧
      ¬ CollectsComments (bytesOf "'\"' // c") ⟨[⟨.RUNE, 0, 3⟩, ⟨.SEMICOLON, 8, 8⟩, ⟨.EOF, 8, 8⟩], [(4, 8)]⟩ := by
  refine ⟨by decide +kernel, fun collects => ?_⟩
  have lost : commentRanges (bytesOf "'\"' // c") 0 = [] := by decide +kernel
  cases lost.symm.trans collects.same

end HopHop
