import HopHop.Lexer
import HopHop.StringLitExact

namespace HopHop

/-! A literal that is closed by a delimiter of its own stays closed whatever follows it. -/

/-- The text closes after `n` bytes, by a delimiter that is not part of an escape. -/
def ClosesAt (quote : UInt8) (rest : List UInt8) (n : Nat) : Prop :=
  ∀ more, quotedLen quote (rest ++ more) = some n

theorem ClosesAt.append {quote : UInt8} {rest : List UInt8} {n : Nat} (closes : ClosesAt quote rest n)
    (after : List UInt8) : ClosesAt quote (rest ++ after) n := by
  intro more
  rw [List.append_assoc]
  exact closes (after ++ more)

theorem closesAt_quote {quote : UInt8} (rest : List UInt8) : ClosesAt quote (quote :: rest) 1 := by
  intro more
  rw [List.cons_append, quotedLen.eq_def]
  simp only [if_true]

theorem closesAt_plain {quote c : UInt8} {rest : List UInt8} (plain : c ≠ Byte.backslash) {n : Nat}
    (closes : ClosesAt quote rest n) : ∃ m, ClosesAt quote (c :: rest) m := by
  by_cases quoted : c = quote
  · subst quoted
    exact ⟨1, closesAt_quote rest⟩
  · refine ⟨n + 1, fun more => ?_⟩
    rw [List.cons_append, quotedLen.eq_def]
    simp only [if_neg quoted, if_neg plain, closes more, Option.map_some]

theorem closesAt_plains {quote : UInt8} {word rest : List UInt8} (plain : ∀ c ∈ word, c ≠ Byte.backslash)
    (closes : ∃ n, ClosesAt quote rest n) : ∃ m, ClosesAt quote (word ++ rest) m := by
  induction word with
  | nil => exact closes
  | cons c word ih =>
    obtain ⟨m, later⟩ := ih fun d member => plain d (List.mem_cons_of_mem _ member)
    exact closesAt_plain (plain c List.mem_cons_self) later

theorem closesAt_escape {quote d : UInt8} {rest : List UInt8} (quoted : quote ≠ Byte.backslash)
    (single : ¬ (d = Byte.carriageReturn ∧ rest.head? = some Byte.newline)) (unread : rest ≠ []) {n : Nat}
    (closes : ClosesAt quote rest n) : ClosesAt quote (Byte.backslash :: d :: rest) (n + 2) := by
  intro more
  have first : (rest ++ more).head? = rest.head? := by
    cases rest with
    | nil => exact absurd rfl unread
    | cons e rest => rfl
  rw [List.cons_append, List.cons_append, quotedLen.eq_def]
  simp only [if_neg (Ne.symm quoted), if_true, first, if_neg single, closes more, Option.map_some]

theorem closesAt_crlf {quote : UInt8} {rest : List UInt8} (quoted : quote ≠ Byte.backslash) {n : Nat}
    (closes : ClosesAt quote rest n) :
    ClosesAt quote (Byte.backslash :: Byte.carriageReturn :: Byte.newline :: rest) (n + 3) := by
  intro more
  rw [List.cons_append, List.cons_append, List.cons_append, quotedLen.eq_def]
  simp only [if_neg (Ne.symm quoted), if_true, List.head?_cons, and_self, List.tail_cons, closes more, Option.map_some]

theorem LineEnd.plain {text rest : List UInt8} (lineEnd : LineEnd text rest) : ∀ c ∈ text, c ≠ Byte.backslash := by
  cases lineEnd with
  | lf | crlf | cr => simp [Byte.newline, Byte.carriageReturn, Byte.backslash]

theorem hexDigit_ne_backslash {c : UInt8} {d : Nat} (digit : hexDigit c = some d) : c ≠ Byte.backslash := by
  rintro rfl
  cases digit

theorem octalDigit_ne_backslash {c : UInt8} (digit : octalDigit c = true) : c ≠ Byte.backslash := by
  rintro rfl
  cases digit

theorem hexNumber_digits {digits : List UInt8} {n : Nat} (number : hexNumber digits = some n) :
    ∀ c ∈ digits, ∃ d, hexDigit c = some d := by
  have step : ∀ (digits : List UInt8) (v n : Nat),
      digits.foldlM (fun v c => (hexDigit c).map fun d => v * 16 + d) v = some n →
        ∀ c ∈ digits, ∃ d, hexDigit c = some d := by
    intro digits
    induction digits with
    | nil => intro v n _ c member; cases member
    | cons d digits ih =>
      intro v n number c member
      rw [List.foldlM_cons] at number
      obtain ⟨w, first, rest⟩ := Option.bind_eq_some_iff.mp number
      obtain ⟨value, digit, _⟩ := Option.map_eq_some_iff.mp first
      rcases List.mem_cons.mp member with rfl | later
      · exact ⟨value, digit⟩
      · exact ih w n rest c later
  exact step digits 0 n number

theorem hexNumber_plain {digits : List UInt8} {n : Nat} (number : hexNumber digits = some n) :
    ∀ c ∈ digits, c ≠ Byte.backslash := by
  intro c member
  obtain ⟨d, digit⟩ := hexNumber_digits number c member
  exact hexDigit_ne_backslash digit

/-- A body that reads as a sequence of items does not swallow the delimiter behind it. -/
theorem Denotes.closes {octalMax : Nat} {delim : UInt8} {body out : List UInt8} (denotes : Denotes octalMax delim body out)
    (interpreted : delim ≠ Byte.backquote) (quoted : delim ≠ Byte.backslash) (visible : delim ≠ Byte.newline) :
    ∃ n, ClosesAt delim (body ++ [delim]) n := by
  induction denotes with
  | nil => exact ⟨1, closesAt_quote []⟩
  | @cons word bytes rest out grammar _ ih =>
    rw [GrammarItem, if_neg interpreted] at grammar
    rw [List.append_assoc]
    have unread : rest ++ [delim] ≠ [] := by simp
    cases grammar with
    | plain escape _ _ => exact closesAt_plains (by simpa using escape) ih
    | lineEnd lineEnd => exact closesAt_plains lineEnd.plain ih
    | elision lineEnd =>
      obtain ⟨n, closes⟩ := ih
      cases lineEnd with
      | lf => exact ⟨_, closesAt_escape quoted (fun both => absurd both.1 (by decide)) unread closes⟩
      | crlf => exact ⟨_, closesAt_crlf quoted closes⟩
      | cr alone =>
        refine ⟨_, closesAt_escape quoted ?_ unread closes⟩
        rintro ⟨_, newline⟩
        cases rest with
        | nil => exact visible (by simpa using newline)
        | cons c rest => exact alone newline
    | @simple c b _ member =>
      obtain ⟨n, closes⟩ := ih
      refine ⟨_, closesAt_escape quoted ?_ unread closes⟩
      rintro ⟨rfl, _⟩
      cases mem_simpleEscapes.mp member
    | @hex h l _ hi lo high low =>
      have plain : ∀ c ∈ [h, l], c ≠ Byte.backslash := by
        simpa using ⟨hexDigit_ne_backslash high, hexDigit_ne_backslash low⟩
      obtain ⟨n, closes⟩ := closesAt_plains plain ih
      exact ⟨_, closesAt_escape quoted (fun both => absurd both.1 (by decide)) (by simp) closes⟩
    | @octal a b c _ octal _ =>
      have plain : ∀ d ∈ [b, c], d ≠ Byte.backslash := by
        simpa using ⟨octalDigit_ne_backslash octal.2.1, octalDigit_ne_backslash octal.2.2⟩
      obtain ⟨n, closes⟩ := closesAt_plains plain ih
      refine ⟨_, closesAt_escape quoted ?_ (by simp) closes⟩
      rintro ⟨rfl, _⟩
      exact absurd octal.1 (by decide)
    | @unicodeShort digits _ r length number =>
      obtain ⟨n, closes⟩ := closesAt_plains (hexNumber_plain number) ih
      exact ⟨_, closesAt_escape quoted (fun both => absurd both.1 (by decide)) (by simp) closes⟩
    | @unicodeLong digits _ r length number =>
      obtain ⟨n, closes⟩ := closesAt_plains (hexNumber_plain number) ih
      exact ⟨_, closesAt_escape quoted (fun both => absurd both.1 (by decide)) (by simp) closes⟩

theorem getD_append_of_lt {src more : List UInt8} {i : Nat} (inside : i < src.length) :
    (src ++ more).getD i 0 = src.getD i 0 := by
  rw [List.getD_eq_getElem?_getD, List.getD_eq_getElem?_getD, List.getElem?_append_left inside]

/-- The decoder reads the bytes of its range only. -/
theorem decodeStringLiteralImpl_append {σ : Type} (emit : σ → UInt8 → Option σ) (ctx : σ) {src : List UInt8}
    {start stop : Nat} (bound : stop ≤ src.length) (more : List UInt8) :
    decodeStringLiteralImpl emit ctx (src ++ more) start stop = decodeStringLiteralImpl emit ctx src start stop := by
  unfold decodeStringLiteralImpl
  by_cases short : stop ≤ start + 1
  · rw [if_pos short, if_pos short]
  · have text : ((src ++ more).drop (start + 1)).take (stop - 1 - (start + 1)) =
        (src.drop (start + 1)).take (stop - 1 - (start + 1)) := by
      rw [List.drop_append_of_le_length (by omega), List.take_append_of_le_length (by rw [List.length_drop]; omega)]
    rw [if_neg short, if_neg short, getD_append_of_lt (show start < src.length by omega),
      getD_append_of_lt (show stop - 1 < src.length by omega), text]

/-- Scanning stops where the decoder finds the closing delimiter, so an accepted interpreted
literal is closed by a delimiter that is not part of an escape. -/
theorem closes_of_decoded {σ : Type} {emit : σ → UInt8 → Option σ} {ctx ctx' : σ} {src tail : List UInt8} {start n : Nat}
    {c : UInt8} (suffix : c :: tail = src.drop start) (interpreted : c = Byte.doubleQuote ∨ c = Byte.singleQuote)
    (scanned : quotedLen c tail = some n) (decoded : decodeStringLiteralImpl emit ctx src start (start + 1 + n) = .ok ctx')
    (inside : n ≤ tail.length) : ClosesAt c tail n := by
  have length := congrArg List.length suffix
  rw [List.length_drop, List.length_cons] at length
  obtain ⟨delim, body, out, literal, denotes, _, _⟩ :=
    (decodeStringLiteralImpl_ok_iff emit ctx ctx' (show start + 1 + n ≤ src.length by omega)).mp decoded
  have text := literal.2
  rw [← suffix, show start + 1 + n - start = n + 1 by omega, List.take_succ_cons] at text
  obtain ⟨rfl, split⟩ := List.cons.inj text
  obtain ⟨m, closes⟩ : ∃ m, ClosesAt c (body ++ [c]) m := by
    rcases interpreted with rfl | rfl
    · exact denotes.closes (by decide) (by decide) (by decide)
    · exact denotes.closes (by decide) (by decide) (by decide)
  have whole := closes.append (tail.drop n)
  rw [← split, List.take_append_drop] at whole
  have same := whole []
  rw [List.append_nil, scanned] at same
  cases same
  exact whole

/-! Raw literals, where only an escaped backquote may stand in for the closing one. -/

/-- A raw text without a closing backquote: each backquote in it follows a backslash. -/
inductive Unclosed : List UInt8 → Prop
  | nil : Unclosed []
  | escaped {rest} : Unclosed rest → Unclosed (Byte.backslash :: Byte.backquote :: rest)
  | byte {c rest} : c ≠ Byte.backquote → ¬ (c = Byte.backslash ∧ rest.head? = some Byte.backquote) →
      Unclosed rest → Unclosed (c :: rest)

theorem Unclosed.rawLen {rest : List UInt8} (unclosed : Unclosed rest) : rawLen rest = rest.length := by
  induction unclosed with
  | nil => rw [HopHop.rawLen, List.length_nil]
  | escaped _ ih =>
    rw [HopHop.rawLen, if_pos ⟨rfl, rfl⟩, List.tail_cons, ih]
    rfl
  | byte plain single _ ih => rw [HopHop.rawLen, if_neg single, if_neg plain, ih, List.length_cons]

theorem Unclosed.newline {rest : List UInt8} (unclosed : Unclosed rest) : Unclosed (rest ++ [Byte.newline]) := by
  induction unclosed with
  | nil => exact .byte (by decide) (by simp) .nil
  | escaped _ ih => exact .escaped ih
  | @byte c rest plain single _ ih =>
    refine .byte plain ?_ ih
    rintro ⟨escape, follows⟩
    cases rest with
    | nil => cases follows
    | cons d rest => exact single ⟨escape, follows⟩

theorem rawLen_append_or_unclosed (rest : List UInt8) :
    (∀ more, rawLen (rest ++ more) = rawLen rest) ∨ Unclosed rest := by
  fun_induction rawLen rest with
  | case1 => exact Or.inr .nil
  | case2 c rest escaped ih =>
    obtain ⟨rfl, follows⟩ := escaped
    cases rest with
    | nil => cases follows
    | cons d rest =>
      cases follows
      rcases ih with closed | unclosed
      · refine Or.inl fun more => ?_
        rw [List.cons_append, List.cons_append, rawLen, if_pos ⟨rfl, rfl⟩]
        exact congrArg (· + 2) (closed more)
      · exact Or.inr (.escaped unclosed)
  | case3 rest escaped =>
    refine Or.inl fun more => ?_
    rw [List.cons_append, rawLen, if_neg (fun both => absurd both.1 (by decide)), if_pos rfl]
  | case4 c rest escaped plain ih =>
    rcases ih with closed | unclosed
    · by_cases last : c = Byte.backslash ∧ rest = []
      · obtain ⟨rfl, rfl⟩ := last
        exact Or.inr (.byte (by decide) (by simp) .nil)
      · refine Or.inl fun more => ?_
        have single : ¬ (c = Byte.backslash ∧ (rest ++ more).head? = some Byte.backquote) := by
          rintro ⟨escape, follows⟩
          cases rest with
          | nil => exact last ⟨escape, rfl⟩
          | cons d rest => exact escaped ⟨escape, follows⟩
        rw [List.cons_append, rawLen, if_neg single, if_neg plain, closed more]
    · exact Or.inr (.byte plain escaped unclosed)

end HopHop
