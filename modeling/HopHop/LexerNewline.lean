import HopHop.LexerPartition
import HopHop.LiteralClose

namespace HopHop

/-! Scanning a source followed by more bytes, in particular by one newline. -/

theorem spanLen_append {p : UInt8 → Bool} (rest : List UInt8) (stop : p Byte.newline = false) :
    spanLen p (rest ++ [Byte.newline]) = spanLen p rest := by
  induction rest with
  | nil => simp [spanLen, stop]
  | cons c rest ih => simp only [List.cons_append, spanLen, ih]

theorem head?_append_iff {rest : List UInt8} {c : UInt8} (other : c ≠ Byte.newline) :
    (rest ++ [Byte.newline]).head? = some c ↔ rest.head? = some c := by
  cases rest with
  | nil => simpa using other.symm
  | cons d rest => simp

theorem head?_tail_append_iff {rest : List UInt8} {c : UInt8} (other : c ≠ Byte.newline) :
    (rest ++ [Byte.newline]).tail.head? = some c ↔ rest.tail.head? = some c := by
  cases rest with
  | nil => simp
  | cons d rest => exact head?_append_iff other

theorem head?_cons_append (d : UInt8) (rest more : List UInt8) : (d :: rest ++ more).head? = (d :: rest).head? :=
  rfl

theorem star_ne_newline : Byte.star ≠ Byte.newline := by decide

theorem slash_ne_newline : Byte.slash ≠ Byte.newline := by decide

theorem skipBlockComment_append {rest rest' : List UInt8} {pos depth pos' : Nat} {newline newline' : Option Nat}
    (run : skipBlockComment rest pos depth newline = .ok (rest', pos', newline')) (more : List UInt8) :
    skipBlockComment (rest ++ more) pos depth newline = .ok (rest' ++ more, pos', newline') := by
  fun_induction skipBlockComment rest pos depth newline with
  | case1 => cases run
  | case2 pos depth newline c rest opens ih =>
    obtain ⟨rfl, star⟩ := opens
    cases rest with
    | nil => cases star
    | cons d rest =>
      rw [List.cons_append, skipBlockComment, if_pos ⟨rfl, star⟩]
      exact ih run
  | case3 pos newline c rest opens closes =>
    obtain ⟨rfl, slash⟩ := closes
    cases rest with
    | nil => cases slash
    | cons d rest =>
      cases run
      rw [List.cons_append, skipBlockComment, head?_cons_append, if_neg opens, if_pos ⟨rfl, slash⟩, if_pos rfl]
      rfl
  | case4 pos depth newline c rest opens closes inner ih =>
    obtain ⟨rfl, slash⟩ := closes
    cases rest with
    | nil => cases slash
    | cons d rest =>
      rw [List.cons_append, skipBlockComment, head?_cons_append, if_neg opens, if_pos ⟨rfl, slash⟩, if_neg inner]
      exact ih run
  | case5 pos depth newline c rest opens closes ih =>
    cases rest with
    | nil =>
      rw [skipBlockComment] at run
      cases run
    | cons d rest =>
      rw [List.cons_append, skipBlockComment, head?_cons_append, if_neg opens, if_neg closes]
      exact ih run

theorem skipBlockComment_newline {rest : List UInt8} {pos depth stop : Nat} {newline : Option Nat}
    (run : skipBlockComment rest pos depth newline = .error stop) :
    ∃ stop', skipBlockComment (rest ++ [Byte.newline]) pos depth newline = .error stop' := by
  fun_induction skipBlockComment rest pos depth newline with
  | case1 pos depth newline =>
    rw [List.nil_append, skipBlockComment, if_neg (by decide), if_neg (by decide), skipBlockComment]
    exact ⟨_, rfl⟩
  | case2 pos depth newline c rest opens ih =>
    obtain ⟨rfl, star⟩ := opens
    cases rest with
    | nil => cases star
    | cons d rest =>
      rw [List.cons_append, skipBlockComment, if_pos ⟨rfl, star⟩]
      exact ih run
  | case3 => cases run
  | case4 pos depth newline c rest opens closes inner ih =>
    obtain ⟨rfl, slash⟩ := closes
    cases rest with
    | nil => cases slash
    | cons d rest =>
      rw [List.cons_append, skipBlockComment, head?_cons_append, if_neg opens, if_pos ⟨rfl, slash⟩, if_neg inner]
      exact ih run
  | case5 pos depth newline c rest opens closes ih =>
    rw [List.cons_append, skipBlockComment]
    simp only [head?_append_iff star_ne_newline, head?_append_iff slash_ne_newline, if_neg opens, if_neg closes]
    exact ih run

/-- What becomes of a gap when a newline is appended to the source: a gap that reaches the end of
input takes the newline in, any other gap only sees it behind the next tokens. -/
def Trivia.newlineAdded (t : Trivia) : Trivia :=
  if t.rest = [] then ⟨[], t.pos + 1, noteNewline Byte.newline t.pos t.newline, t.comments⟩
  else { t with rest := t.rest ++ [Byte.newline] }

theorem Trivia.newlineAdded_addComment (range : Nat × Nat) (t : Trivia) :
    (t.addComment range).newlineAdded = t.newlineAdded.addComment range := by
  unfold newlineAdded
  by_cases ended : t.rest = []
  · rw [if_pos ended, if_pos (show (t.addComment range).rest = [] from ended)]
    rfl
  · rw [if_neg ended, if_neg (show ¬ (t.addComment range).rest = [] from ended)]
    rfl

theorem spanLen_newline (tail : List UInt8) :
    spanLen isNotNewline (tail ++ [Byte.newline]) = spanLen isNotNewline tail :=
  spanLen_append tail (by decide)

theorem skipTrivia_newline {rest : List UInt8} {pos : Nat} {newline : Option Nat} {t : Trivia}
    (run : skipTrivia rest pos newline = .ok t) :
    skipTrivia (rest ++ [Byte.newline]) pos newline = .ok t.newlineAdded := by
  fun_induction skipTrivia rest pos newline generalizing t with
  | case1 pos newline =>
    cases run
    rw [List.nil_append, skipTrivia, if_neg (by decide), if_pos rfl, skipTrivia]
    rfl
  | case2 pos newline c tail blank ih =>
    rw [List.cons_append, skipTrivia, if_pos blank]
    exact ih run
  | case3 pos newline tail blank ih =>
    rw [List.cons_append, skipTrivia, if_neg blank, if_pos rfl]
    exact ih run
  | case4 => cases run
  | case5 pos newline c tail blank ends line n t' next =>
    rename_i ih
    cases run
    obtain ⟨rfl, slash⟩ := line
    obtain ⟨text, rfl⟩ := exists_tail slash
    have inner := ih next
    have length := spanLen_le_length isNotNewline text
    rw [List.cons_append, List.cons_append, skipTrivia_line, spanLen_newline, List.drop_append_of_le_length length,
      Trivia.newlineAdded_addComment]
    exact congrArg (Except.map (Trivia.addComment _)) inner
  | case6 => cases run
  | case7 => cases run
  | case8 pos newline c tail blank ends line block rest' pos' newline' comment t' next ih =>
    cases run
    obtain ⟨rfl, star⟩ := block
    obtain ⟨text, rfl⟩ := exists_tail star
    rw [List.tail_cons] at comment
    rw [List.cons_append, List.cons_append, skipTrivia_block (skipBlockComment_append comment _), ih next,
      Trivia.newlineAdded_addComment]
    rfl
  | case9 pos newline c tail blank ends line block =>
    cases run
    rw [List.cons_append, skipTrivia]
    simp only [head?_append_iff star_ne_newline, head?_append_iff slash_ne_newline, if_neg blank, if_neg ends,
      if_neg line, if_neg block]
    rfl

theorem skipTrivia_failed {rest : List UInt8} {pos : Nat} {newline : Option Nat} {diag : Diag}
    (run : skipTrivia rest pos newline = .error diag) :
    ∃ diag', skipTrivia (rest ++ [Byte.newline]) pos newline = .error diag' := by
  fun_induction skipTrivia rest pos newline generalizing diag with
  | case1 => cases run
  | case2 pos newline c tail blank ih =>
    rw [List.cons_append, skipTrivia, if_pos blank]
    exact ih run
  | case3 pos newline tail blank ih =>
    rw [List.cons_append, skipTrivia, if_neg blank, if_pos rfl]
    exact ih run
  | case4 pos newline c tail blank ends line n diag' next =>
    rename_i ih
    obtain ⟨rfl, slash⟩ := line
    obtain ⟨text, rfl⟩ := exists_tail slash
    obtain ⟨other, inner⟩ := ih next
    have length := spanLen_le_length isNotNewline text
    rw [List.cons_append, List.cons_append, skipTrivia_line, spanLen_newline, List.drop_append_of_le_length length]
    exact ⟨other, congrArg (Except.map (Trivia.addComment _)) inner⟩
  | case5 => cases run
  | case6 pos newline c tail blank ends line block stop comment =>
    obtain ⟨rfl, star⟩ := block
    obtain ⟨text, rfl⟩ := exists_tail star
    obtain ⟨stop', failed⟩ := skipBlockComment_newline comment
    exact ⟨_, skipTrivia_unterminated failed⟩
  | case7 pos newline c tail blank ends line block rest' pos' newline' comment diag' next ih =>
    obtain ⟨rfl, star⟩ := block
    obtain ⟨text, rfl⟩ := exists_tail star
    obtain ⟨other, inner⟩ := ih next
    rw [List.tail_cons] at comment
    rw [List.cons_append, List.cons_append, skipTrivia_block (skipBlockComment_append comment _), inner]
    exact ⟨other, rfl⟩
  | case8 => cases run
  | case9 => cases run

/-! Tokens. Every scanner looks at the same bytes of a token, except where a literal runs into the
end of input. -/

theorem isHexMark_newline (tail : List UInt8) : isHexMark (tail ++ [Byte.newline]).head? = isHexMark tail.head? := by
  cases tail <;> rfl

theorem fractionLen_newline (rest : List UInt8) : fractionLen (rest ++ [Byte.newline]) = fractionLen rest := by
  cases rest with
  | nil => rfl
  | cons c rest =>
    simp only [fractionLen, List.cons_append, List.head?_cons, List.tail_cons,
      spanLen_append rest (show isDigit Byte.newline = false by decide)]
    rfl

theorem exponentLen_newline (rest : List UInt8) : exponentLen (rest ++ [Byte.newline]) = exponentLen rest := by
  have sign (tail : List UInt8) : isSign (tail ++ [Byte.newline]).head? = isSign tail.head? := by
    cases tail <;> rfl
  have digits (n : Nat) (tail : List UInt8) :
      spanLen isDigit ((tail ++ [Byte.newline]).drop n) = spanLen isDigit (tail.drop n) := by
    by_cases inside : n ≤ tail.length
    · rw [List.drop_append_of_le_length inside, spanLen_append _ (by decide)]
    · rw [List.drop_eq_nil_of_le (by simp only [List.length_append, List.length_singleton]; omega),
        List.drop_eq_nil_of_le (by omega)]
  cases rest with
  | nil => rfl
  | cons c rest =>
    simp only [exponentLen, List.cons_append, List.head?_cons, List.tail_cons, sign]
    simp only [← List.cons_append, digits]
    rfl

theorem scanNumber_newline (start : Nat) (c : UInt8) (tail : List UInt8) :
    scanNumber start c (tail ++ [Byte.newline]) = scanNumber start c tail := by
  unfold scanNumber
  rw [isHexMark_newline]
  by_cases hex : c = Byte.zero ∧ isHexMark tail.head? = true
  · rw [if_pos hex, if_pos hex]
    cases tail with
    | nil => exact absurd hex.2 (by decide)
    | cons d tail =>
      simp only [List.cons_append, List.tail_cons, spanLen_append tail (show isHexDigit Byte.newline = false by decide)]
      rfl
  · rw [if_neg hex, if_neg hex]
    have whole := spanLen_le_length isDigit tail
    have fraction := fractionLen_le_length (tail.drop (spanLen isDigit tail))
    rw [List.length_drop] at fraction
    simp only [spanLen_append tail (show isDigit Byte.newline = false by decide),
      List.drop_append_of_le_length whole, fractionLen_newline,
      List.drop_append_of_le_length (show spanLen isDigit tail + fractionLen (tail.drop (spanLen isDigit tail)) ≤
        tail.length by omega), exponentLen_newline]

theorem withAssign_newline (plain assign : TokenKind) (tail : List UInt8) :
    withAssign plain assign (tail ++ [Byte.newline]) = withAssign plain assign tail := by
  simp only [withAssign, head?_append_iff (show Byte.equals ≠ Byte.newline by decide)]

theorem withDouble_newline {c : UInt8} (visible : c ≠ Byte.newline) (plain double assign : TokenKind)
    (tail : List UInt8) : withDouble c plain double assign (tail ++ [Byte.newline]) =
      withDouble c plain double assign tail := by
  simp only [withDouble, head?_append_iff visible, withAssign_newline]

theorem withShift_newline {c : UInt8} (visible : c ≠ Byte.newline) (plain assign shift shiftAssign : TokenKind)
    (tail : List UInt8) : withShift c plain assign shift shiftAssign (tail ++ [Byte.newline]) =
      withShift c plain assign shift shiftAssign tail := by
  simp only [withShift, head?_append_iff visible, withAssign_newline,
    head?_tail_append_iff (show Byte.equals ≠ Byte.newline by decide)]

theorem scanPunct_newline (start : Nat) {c : UInt8} (visible : c ≠ Byte.newline) (tail : List UInt8) :
    scanPunct start c (tail ++ [Byte.newline]) = scanPunct start c tail := by
  simp only [scanPunct, withAssign_newline, withDouble_newline visible, withShift_newline visible,
    head?_append_iff (show Byte.dot ≠ Byte.newline by decide),
    head?_tail_append_iff (show Byte.dot ≠ Byte.newline by decide)]

theorem scanIdent_newline (c : UInt8) (tail : List UInt8) : scanIdent c (tail ++ [Byte.newline]) = scanIdent c tail := by
  have length := spanLen_le_length isIdentPart tail
  simp only [scanIdent, spanLen_append tail (show isIdentPart Byte.newline = false by decide),
    List.take_append_of_le_length length]

theorem closedBy_append (quote c : UInt8) {tail : List UInt8} {n : Nat} (inside : n ≤ tail.length) (more : List UInt8) :
    closedBy quote c (tail ++ more) n = closedBy quote c tail n := by
  have within : n < (c :: tail).length := by
    rw [List.length_cons]
    omega
  rw [closedBy, closedBy, ← List.cons_append, getD_append_of_lt within]

theorem closedBy_newline {quote : UInt8} (visible : quote ≠ Byte.newline) (c : UInt8) (tail : List UInt8) :
    closedBy quote c (tail ++ [Byte.newline]) (tail.length + 1) = false := by
  simpa [closedBy] using visible.symm

/-- With a newline behind it, a quoted text is either closed as before or runs to the new end. -/
theorem quotedLen_newline {quote : UInt8} (visible : quote ≠ Byte.newline) (rest : List UInt8) :
    quotedLen quote (rest ++ [Byte.newline]) = quotedLen quote rest ∨
      quotedLen quote (rest ++ [Byte.newline]) = some (rest.length + 1) := by
  fun_induction quotedLen quote rest with
  | case1 =>
    refine Or.inr ?_
    rw [List.nil_append, quotedLen, if_neg (Ne.symm visible), if_neg (by decide), quotedLen]
    rfl
  | case2 rest =>
    refine Or.inl ?_
    rw [List.cons_append, quotedLen.eq_def]
    simp only [if_true]
  | case3 quoted =>
    refine Or.inr ?_
    rw [List.singleton_append, quotedLen, if_neg quoted, if_pos rfl]
    simp only [List.head?_nil, reduceCtorEq, and_false, if_false]
    rw [quotedLen]
    rfl
  | case4 d more crlf quoted ih =>
    obtain ⟨rfl, follows⟩ := crlf
    obtain ⟨text, rfl⟩ := exists_tail follows
    rw [List.cons_append, List.cons_append, List.cons_append, quotedLen.eq_def]
    simp only [if_neg quoted, if_true, List.head?_cons, and_self, List.tail_cons]
    rcases ih with same | long
    · exact Or.inl (congrArg (Option.map (· + 3)) same)
    · exact Or.inr (congrArg (Option.map (· + 3)) long)
  | case5 d more crlf quoted ih =>
    rw [List.cons_append, List.cons_append, quotedLen.eq_def]
    simp only [if_neg quoted, if_true]
    by_cases split : d = Byte.carriageReturn ∧ more = []
    · obtain ⟨rfl, rfl⟩ := split
      refine Or.inr ?_
      rw [List.nil_append, List.head?_cons, if_pos ⟨rfl, rfl⟩, List.tail_cons, quotedLen]
      rfl
    · have single : ¬ (d = Byte.carriageReturn ∧ (more ++ [Byte.newline]).head? = some Byte.newline) := by
        rintro ⟨cr, follows⟩
        cases more with
        | nil => exact split ⟨cr, rfl⟩
        | cons e more => exact crlf ⟨cr, follows⟩
      rw [if_neg single]
      rcases ih with same | long
      · exact Or.inl (congrArg (Option.map (· + 2)) same)
      · exact Or.inr (congrArg (Option.map (· + 2)) long)
  | case6 c rest quoted escape ih =>
    rw [List.cons_append, quotedLen.eq_def]
    simp only [if_neg quoted, if_neg escape]
    rcases ih with same | long
    · exact Or.inl (congrArg (Option.map (· + 1)) same)
    · exact Or.inr (congrArg (Option.map (· + 1)) long)

section Literals

variable {src tail : List UInt8} {start : Nat} {c : UInt8}

theorem scanRune_newline (suffix : c :: tail = src.drop start) :
    scanRune (src ++ [Byte.newline]) start c (tail ++ [Byte.newline]) = scanRune src start c tail ∨
      ∃ diag, scanRune (src ++ [Byte.newline]) start c (tail ++ [Byte.newline]) = .error diag := by
  unfold scanRune
  rcases quotedLen_newline (show Byte.singleQuote ≠ Byte.newline by decide) tail with same | long
  · rw [same]
    cases scanned : quotedLen Byte.singleQuote tail with
    | none => exact Or.inr ⟨_, rfl⟩
    | some n =>
      have inside := quotedLen_le_length scanned
      simp only [closedBy_append _ _ inside, decodeRuneLiteralValidate,
        decodeStringLiteralImpl_append _ _ (scan_bound suffix inside)]
      exact Or.inl trivial
  · rw [long]
    simp only [closedBy_newline (show Byte.singleQuote ≠ Byte.newline by decide), Bool.not_false, if_true]
    exact Or.inr ⟨_, rfl⟩

theorem scanString_newline (suffix : c :: tail = src.drop start) (visible : c ≠ Byte.newline) :
    scanString (src ++ [Byte.newline]) start c (tail ++ [Byte.newline]) = scanString src start c tail ∨
      ∃ diag, scanString (src ++ [Byte.newline]) start c (tail ++ [Byte.newline]) = .error diag := by
  have length : (if c = Byte.backquote then some (rawLen (tail ++ [Byte.newline])) else
        quotedLen c (tail ++ [Byte.newline])) =
      (if c = Byte.backquote then some (rawLen tail) else quotedLen c tail) ∨
      (if c = Byte.backquote then some (rawLen (tail ++ [Byte.newline])) else
        quotedLen c (tail ++ [Byte.newline])) = some (tail.length + 1) := by
    by_cases raw : c = Byte.backquote
    · simp only [if_pos raw]
      rcases rawLen_append_or_unclosed tail with closed | unclosed
      · exact Or.inl (congrArg some (closed _))
      · refine Or.inr (congrArg some ?_)
        rw [unclosed.newline.rawLen, List.length_append, List.length_singleton]
    · simp only [if_neg raw]
      exact quotedLen_newline visible tail
  unfold scanString
  rcases length with same | long
  · rw [same]
    cases scanned : (if c = Byte.backquote then some (rawLen tail) else quotedLen c tail) with
    | none => exact Or.inr ⟨_, rfl⟩
    | some n =>
      have inside : n ≤ tail.length := by
        split at scanned
        · cases scanned
          exact rawLen_le_length tail
        · exact quotedLen_le_length scanned
      simp only [closedBy_append _ _ inside, decodeStringLiteralValidate,
        decodeStringLiteralImpl_append _ _ (scan_bound suffix inside)]
      exact Or.inl trivial
  · rw [long]
    simp only [closedBy_newline visible, Bool.not_false, if_true]
    exact Or.inr ⟨_, rfl⟩

end Literals

end HopHop
