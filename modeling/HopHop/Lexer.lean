import HopHop.StringLit

namespace HopHop

def isBlank (c : UInt8) : Bool :=
  c = Byte.space || c = Byte.tab || c = Byte.carriageReturn || c = Byte.formFeed || c = Byte.verticalTab

/-- Position of the first newline of a gap: set once, by the byte `c` at `pos`. -/
def noteNewline (c : UInt8) (pos : Nat) (newline : Option Nat) : Option Nat :=
  if c = Byte.newline ∧ newline = none then some pos else newline

/-- The rest of a block comment, `depth` levels deep, with the next unread byte at `pos`. Yields
what follows the comment, or the position where the input ended. -/
def skipBlockComment (rest : List UInt8) (pos depth : Nat) (newline : Option Nat) :
    Except Nat (List UInt8 × Nat × Option Nat) :=
  match rest with
  | [] => .error pos
  | c :: rest =>
    if c = Byte.slash ∧ rest.head? = some Byte.star then
      skipBlockComment rest.tail (pos + 2) (depth + 1) (noteNewline c pos newline)
    else if c = Byte.star ∧ rest.head? = some Byte.slash then
      if depth = 1 then .ok (rest.tail, pos + 2, noteNewline c pos newline)
      else skipBlockComment rest.tail (pos + 2) (depth - 1) (noteNewline c pos newline)
    else skipBlockComment rest (pos + 1) depth (noteNewline c pos newline)
termination_by rest.length
decreasing_by all_goals simp only [List.length_cons, List.length_tail]; omega

theorem skipBlockComment_length {rest rest' : List UInt8} {pos depth pos' : Nat} {newline newline' : Option Nat}
    (run : skipBlockComment rest pos depth newline = .ok (rest', pos', newline')) :
    pos' + rest'.length = pos + rest.length ∧ rest'.length < rest.length := by
  fun_induction skipBlockComment rest pos depth newline with
  | case1 => cases run
  | case2 pos depth newline c rest opens ih =>
    obtain ⟨_, follows⟩ := opens
    cases rest with
    | nil => cases follows
    | cons d rest =>
      obtain ⟨position, shorter⟩ := ih run
      simp only [List.length_cons, List.tail_cons] at position shorter ⊢
      omega
  | case3 pos newline c rest opens closes =>
    obtain ⟨_, follows⟩ := closes
    cases rest with
    | nil => cases follows
    | cons d rest =>
      cases run
      simp only [List.length_cons, List.tail_cons]
      omega
  | case4 pos depth newline c rest opens closes inner ih =>
    obtain ⟨_, follows⟩ := closes
    cases rest with
    | nil => cases follows
    | cons d rest =>
      obtain ⟨position, shorter⟩ := ih run
      simp only [List.length_cons, List.tail_cons] at position shorter ⊢
      omega
  | case5 pos depth newline c rest opens closes ih =>
    obtain ⟨position, shorter⟩ := ih run
    simp only [List.length_cons] at position shorter ⊢
    omega

/-- What the gap before a token comes to: the unread bytes, the first newline seen, and the ranges
of the comments skipped. The scanner itself does not keep the comments. -/
structure Trivia where
  rest : List UInt8
  pos : Nat
  newline : Option Nat
  comments : List (Nat × Nat)
  deriving DecidableEq, Repr

def Trivia.addComment (range : Nat × Nat) (t : Trivia) : Trivia :=
  { t with comments := range :: t.comments }

def isNotNewline (c : UInt8) : Bool :=
  c ≠ Byte.newline

/-- Skips blanks, newlines and comments. -/
def skipTrivia (rest : List UInt8) (pos : Nat) (newline : Option Nat) : Except Diag Trivia :=
  match rest with
  | [] => .ok ⟨[], pos, newline, []⟩
  | c :: tail =>
    if isBlank c then skipTrivia tail (pos + 1) newline
    else if c = Byte.newline then skipTrivia tail (pos + 1) (noteNewline c pos newline)
    else if c = Byte.slash ∧ tail.head? = some Byte.slash then
      let n := spanLen isNotNewline tail.tail
      match skipTrivia (tail.tail.drop n) (pos + 2 + n) newline with
      | .error diag => .error diag
      | .ok t => .ok (t.addComment (pos, pos + 2 + n))
    else if c = Byte.slash ∧ tail.head? = some Byte.star then
      match _comment : skipBlockComment tail.tail (pos + 2) 1 newline with
      | .error stop => .error ⟨.UNTERMINATED_BLOCK_COMMENT, pos, stop⟩
      | .ok (rest', pos', newline') =>
        match skipTrivia rest' pos' newline' with
        | .error diag => .error diag
        | .ok t => .ok (t.addComment (pos, pos'))
    else .ok ⟨c :: tail, pos, newline, []⟩
termination_by rest.length
decreasing_by
  all_goals simp only [List.length_cons, List.length_drop, List.length_tail]
  · omega
  · omega
  · omega
  · have shorter := (skipBlockComment_length _comment).2
    simp only [List.length_tail] at shorter
    omega

theorem skipTrivia_length {rest : List UInt8} {pos : Nat} {newline : Option Nat} {t : Trivia}
    (run : skipTrivia rest pos newline = .ok t) : t.rest.length ≤ rest.length := by
  fun_induction skipTrivia rest pos newline generalizing t with
  | case1 => cases run; exact Nat.le_refl _
  | case2 pos newline c tail blank ih => exact Nat.le_succ_of_le (ih run)
  | case3 pos newline tail blank ih => exact Nat.le_succ_of_le (ih run)
  | case4 => cases run
  | case5 pos newline c tail blank ends line n t' next =>
    rename_i ih
    cases run
    have shorter := ih next
    simp only [List.length_drop, List.length_tail] at shorter
    simp only [Trivia.addComment, List.length_cons]
    omega
  | case6 => cases run
  | case7 => cases run
  | case8 pos newline c tail blank ends line block rest' pos' newline' comment t' next ih =>
    cases run
    have shorter := ih next
    have consumed := (skipBlockComment_length comment).2
    simp only [List.length_tail] at consumed
    simp only [Trivia.addComment, List.length_cons]
    omega
  | case9 => cases run; exact Nat.le_refl _

theorem skipTrivia_line (tail : List UInt8) (pos : Nat) (newline : Option Nat) :
    skipTrivia (Byte.slash :: Byte.slash :: tail) pos newline =
      (skipTrivia (tail.drop (spanLen isNotNewline tail)) (pos + 2 + spanLen isNotNewline tail) newline).map
        (Trivia.addComment (pos, pos + 2 + spanLen isNotNewline tail)) := by
  rw [skipTrivia, if_neg (by decide), if_neg (by decide), if_pos ⟨rfl, rfl⟩]
  simp only [List.tail_cons]
  cases skipTrivia (tail.drop (spanLen isNotNewline tail)) (pos + 2 + spanLen isNotNewline tail) newline <;> rfl

theorem skipTrivia_block {tail rest' : List UInt8} {pos pos' : Nat} {newline newline' : Option Nat}
    (comment : skipBlockComment tail (pos + 2) 1 newline = .ok (rest', pos', newline')) :
    skipTrivia (Byte.slash :: Byte.star :: tail) pos newline =
      (skipTrivia rest' pos' newline').map (Trivia.addComment (pos, pos')) := by
  rw [skipTrivia, if_neg (by decide), if_neg (by decide), if_neg (by simp only [List.head?_cons]; decide), if_pos ⟨rfl, rfl⟩]
  simp only [List.tail_cons]
  split
  next stop failed =>
    rw [comment] at failed
    cases failed
  next found =>
    rw [comment] at found
    cases found
    cases skipTrivia rest' pos' newline' <;> rfl

theorem skipTrivia_unterminated {tail : List UInt8} {pos stop : Nat} {newline : Option Nat}
    (comment : skipBlockComment tail (pos + 2) 1 newline = .error stop) :
    skipTrivia (Byte.slash :: Byte.star :: tail) pos newline = .error ⟨.UNTERMINATED_BLOCK_COMMENT, pos, stop⟩ := by
  rw [skipTrivia, if_neg (by decide), if_neg (by decide), if_neg (by simp only [List.head?_cons]; decide), if_pos ⟨rfl, rfl⟩]
  simp only [List.tail_cons]
  split
  next found =>
    rw [comment] at found
    cases found
    rfl
  next found =>
    rw [comment] at found
    cases found

/-- A token found at the current position. `more` counts its bytes after the first one. -/
structure Scanned where
  kind : TokenKind
  more : Nat
  deriving DecidableEq, Repr

def isIdentPart (c : UInt8) : Bool :=
  isAlnum c || c = Byte.underscore

def scanIdent (c : UInt8) (tail : List UInt8) : Scanned :=
  let n := spanLen isIdentPart tail
  ⟨keywordKind (c :: tail.take n), n⟩

def isHexMark (c : Option UInt8) : Bool :=
  c = some 0x78 || c = some 0x58

def isExponentMark (c : Option UInt8) : Bool :=
  c = some 0x65 || c = some 0x45

def isSign (c : Option UInt8) : Bool :=
  c = some Byte.plus || c = some Byte.minus

/-- The fraction of a decimal number, if there is one. -/
def fractionLen (rest : List UInt8) : Nat :=
  if rest.head? = some Byte.dot then 1 + spanLen isDigit rest.tail else 0

/-- The exponent of a decimal number. An exponent without digits is an error after the sign. -/
def exponentLen (rest : List UInt8) : Except Nat Nat :=
  if isExponentMark rest.head? then
    let sign := if isSign rest.tail.head? then 1 else 0
    let digits := spanLen isDigit (rest.drop (1 + sign))
    if digits = 0 then .error (1 + sign) else .ok (1 + sign + digits)
  else .ok 0

def scanNumber (start : Nat) (c : UInt8) (tail : List UInt8) : Except Diag Scanned :=
  if c = Byte.zero ∧ isHexMark tail.head? then
    let digits := spanLen isHexDigit tail.tail
    if digits = 0 then .error ⟨.INVALID_NUMBER, start, start + 2⟩ else .ok ⟨.INT, 1 + digits⟩
  else
    let whole := spanLen isDigit tail
    let fraction := fractionLen (tail.drop whole)
    match exponentLen (tail.drop (whole + fraction)) with
    | .error n => .error ⟨.INVALID_NUMBER, start, start + 1 + whole + fraction + n⟩
    | .ok exponent =>
      .ok ⟨if fraction = 0 ∧ exponent = 0 then .INT else .FLOAT, whole + fraction + exponent⟩

/-- Length of the text of an interpreted or rune literal after its opening quote, up to and
including the closing quote or the end of input. Nothing if the input ends after a backslash. -/
def quotedLen (quote : UInt8) (rest : List UInt8) : Option Nat :=
  match rest with
  | [] => some 0
  | c :: rest =>
    if c = quote then some 1
    else if c = Byte.backslash then
      match rest with
      | [] => none
      | d :: rest =>
        if d = Byte.carriageReturn ∧ rest.head? = some Byte.newline then
          (quotedLen quote rest.tail).map (· + 3)
        else (quotedLen quote rest).map (· + 2)
    else (quotedLen quote rest).map (· + 1)
termination_by rest.length
decreasing_by all_goals simp only [List.length_cons, List.length_tail]; omega

/-- The same for a raw literal, where a backslash only protects a backquote. -/
def rawLen (rest : List UInt8) : Nat :=
  match rest with
  | [] => 0
  | c :: rest =>
    if c = Byte.backslash ∧ rest.head? = some Byte.backquote then rawLen rest.tail + 2
    else if c = Byte.backquote then 1
    else rawLen rest + 1
termination_by rest.length
decreasing_by all_goals simp only [List.length_cons, List.length_tail]; omega

/-- A literal is taken as closed when its last byte is the quote. -/
def closedBy (quote c : UInt8) (tail : List UInt8) (n : Nat) : Bool :=
  (c :: tail).getD n 0 = quote

def scanRune (src : List UInt8) (start : Nat) (c : UInt8) (tail : List UInt8) : Except Diag Scanned :=
  match quotedLen Byte.singleQuote tail with
  | none => .error ⟨.UNTERMINATED_RUNE, start, src.length⟩
  | some n =>
    if !closedBy Byte.singleQuote c tail n then .error ⟨.UNTERMINATED_RUNE, start, start + 1 + n⟩
    else
      match decodeRuneLiteralValidate src start (start + 1 + n) with
      | .error err => .error ⟨runeLitErrDiagCode err.kind, err.start, err.stop⟩
      | .ok _ => .ok ⟨.RUNE, n⟩

def scanString (src : List UInt8) (start : Nat) (c : UInt8) (tail : List UInt8) : Except Diag Scanned :=
  match if c = Byte.backquote then some (rawLen tail) else quotedLen c tail with
  | none => .error ⟨.UNTERMINATED_STRING, start, src.length⟩
  | some n =>
    if !closedBy c c tail n then .error ⟨.UNTERMINATED_STRING, start, start + 1 + n⟩
    else
      match decodeStringLiteralValidate src start (start + 1 + n) with
      | .error err => .error ⟨stringLitErrDiagCode err.kind, err.start, err.stop⟩
      | .ok _ => .ok ⟨.STRING, n⟩

/-- An operator that has an assigning form. -/
def withAssign (plain assign : TokenKind) (tail : List UInt8) : Scanned :=
  if tail.head? = some Byte.equals then ⟨assign, 1⟩ else ⟨plain, 0⟩

/-- An operator whose first byte may be doubled, with an assigning form of the single byte. -/
def withDouble (c : UInt8) (plain double assign : TokenKind) (tail : List UInt8) : Scanned :=
  if tail.head? = some c then ⟨double, 1⟩ else withAssign plain assign tail

/-- An operator whose first byte may be doubled, with an assigning form of either. -/
def withShift (c : UInt8) (plain assign shift shiftAssign : TokenKind) (tail : List UInt8) : Scanned :=
  if tail.head? = some c then
    if tail.tail.head? = some Byte.equals then ⟨shiftAssign, 2⟩ else ⟨shift, 1⟩
  else withAssign plain assign tail

def scanPunct (start : Nat) (c : UInt8) (tail : List UInt8) : Except Diag Scanned :=
  if c = 0x28 then .ok ⟨.LPAREN, 0⟩
  else if c = 0x29 then .ok ⟨.RPAREN, 0⟩
  else if c = 0x7B then .ok ⟨.LBRACE, 0⟩
  else if c = 0x7D then .ok ⟨.RBRACE, 0⟩
  else if c = 0x5B then .ok ⟨.LBRACK, 0⟩
  else if c = 0x5D then .ok ⟨.RBRACK, 0⟩
  else if c = 0x2C then .ok ⟨.COMMA, 0⟩
  else if c = Byte.dot then
    if tail.head? = some Byte.dot ∧ tail.tail.head? = some Byte.dot then .ok ⟨.ELLIPSIS, 2⟩ else .ok ⟨.DOT, 0⟩
  else if c = 0x3B then .ok ⟨.SEMICOLON, 0⟩
  else if c = 0x3A then .ok (withAssign .COLON .SHORT_ASSIGN tail)
  else if c = 0x40 then .ok ⟨.AT, 0⟩
  else if c = Byte.plus then .ok (withAssign .ADD .ADD_ASSIGN tail)
  else if c = Byte.minus then .ok (withAssign .SUB .SUB_ASSIGN tail)
  else if c = Byte.star then .ok (withAssign .MUL .MUL_ASSIGN tail)
  else if c = Byte.slash then .ok (withAssign .DIV .DIV_ASSIGN tail)
  else if c = 0x25 then .ok (withAssign .MOD .MOD_ASSIGN tail)
  else if c = 0x26 then .ok (withDouble c .AND .LOGICAL_AND .AND_ASSIGN tail)
  else if c = 0x7C then .ok (withDouble c .OR .LOGICAL_OR .OR_ASSIGN tail)
  else if c = 0x5E then .ok (withAssign .XOR .XOR_ASSIGN tail)
  else if c = 0x3F then .ok ⟨.QUESTION, 0⟩
  else if c = 0x21 then .ok (withAssign .NOT .NEQ tail)
  else if c = Byte.equals then .ok (withAssign .ASSIGN .EQ tail)
  else if c = 0x3C then .ok (withShift c .LT .LTE .LSHIFT .LSHIFT_ASSIGN tail)
  else if c = 0x3E then .ok (withShift c .GT .GTE .RSHIFT .RSHIFT_ASSIGN tail)
  else .error ⟨.UNEXPECTED_CHAR, start, start + 1⟩

/-- The token that starts with byte `c` at `start`, followed by `tail`. -/
def scanToken (src : List UInt8) (start : Nat) (c : UInt8) (tail : List UInt8) : Except Diag Scanned :=
  if isAlpha c ∨ c = Byte.underscore then .ok (scanIdent c tail)
  else if isDigit c then scanNumber start c tail
  else if c = Byte.singleQuote then scanRune src start c tail
  else if c = Byte.doubleQuote ∨ c = Byte.backquote then scanString src start c tail
  else scanPunct start c tail

/-- The tokens of a source and, beside them, the comments passed over on the way. -/
structure Lexed where
  tokens : List Token
  comments : List (Nat × Nat)
  deriving DecidableEq, Repr

def Lexed.push (tok : Token) (comments : List (Nat × Nat)) (lexed : Lexed) : Lexed :=
  ⟨tok :: lexed.tokens, comments ++ lexed.comments⟩

/-- Where the scan goes on: the unread bytes, their position, and whether the semicolon at the end
of input was inserted. -/
structure LexState where
  rest : List UInt8
  pos : Nat
  insertedEOFSemicolon : Bool
  deriving DecidableEq, Repr

/-- One round of the main loop: the token it stores, the comments passed over before it, and the
state it leaves, unless the token is the end marker. -/
structure Round where
  tok : Token
  comments : List (Nat × Nat)
  next : Option LexState
  deriving DecidableEq, Repr

/-- The body of the main loop. `prev` is the kind of the last token stored. -/
def lexRound (src : List UInt8) (st : LexState) (prev : TokenKind) : Except Diag Round :=
  match skipTrivia st.rest st.pos none with
  | .error diag => .error diag
  | .ok t =>
    match if tokenCanEndStmt prev then t.newline else none with
    | some newlinePos =>
      .ok ⟨⟨.SEMICOLON, newlinePos, newlinePos⟩, t.comments, some ⟨t.rest, t.pos, st.insertedEOFSemicolon⟩⟩
    | none =>
      match t.rest with
      | [] =>
        if !st.insertedEOFSemicolon && tokenCanEndStmt prev then
          .ok ⟨⟨.SEMICOLON, src.length, src.length⟩, t.comments, some ⟨[], t.pos, true⟩⟩
        else .ok ⟨⟨.EOF, src.length, src.length⟩, t.comments, none⟩
      | c :: tail =>
        match scanToken src t.pos c tail with
        | .error diag => .error diag
        | .ok s =>
          let stop := t.pos + 1 + s.more
          .ok ⟨⟨s.kind, t.pos, stop⟩, t.comments, some ⟨tail.drop s.more, stop, st.insertedEOFSemicolon⟩⟩

/-- What a round of the main loop can do, each case with what the scanner found. -/
inductive Round.Of (src : List UInt8) (st : LexState) (prev : TokenKind) (t : Trivia) : Round → Prop
  | newline {newlinePos} : tokenCanEndStmt prev = true → t.newline = some newlinePos →
      Round.Of src st prev t
        ⟨⟨.SEMICOLON, newlinePos, newlinePos⟩, t.comments, some ⟨t.rest, t.pos, st.insertedEOFSemicolon⟩⟩
  | final : tokenCanEndStmt prev = true → t.newline = none → t.rest = [] → st.insertedEOFSemicolon = false →
      Round.Of src st prev t ⟨⟨.SEMICOLON, src.length, src.length⟩, t.comments, some ⟨[], t.pos, true⟩⟩
  | eof : (tokenCanEndStmt prev = true → t.newline = none ∧ st.insertedEOFSemicolon = true) → t.rest = [] →
      Round.Of src st prev t ⟨⟨.EOF, src.length, src.length⟩, t.comments, none⟩
  | token {c tail s} : (tokenCanEndStmt prev = true → t.newline = none) → t.rest = c :: tail →
      scanToken src t.pos c tail = .ok s →
      Round.Of src st prev t ⟨⟨s.kind, t.pos, t.pos + 1 + s.more⟩, t.comments,
        some ⟨tail.drop s.more, t.pos + 1 + s.more, st.insertedEOFSemicolon⟩⟩

theorem lexRound_ok_iff {src : List UInt8} {st : LexState} {prev : TokenKind} {r : Round} :
    lexRound src st prev = .ok r ↔ ∃ t, skipTrivia st.rest st.pos none = .ok t ∧ Round.Of src st prev t r := by
  unfold lexRound
  constructor
  · intro run
    split at run
    next => cases run
    next t skipped =>
      refine ⟨t, skipped, ?_⟩
      split at run
      next newlinePos newline =>
        cases run
        by_cases ends : tokenCanEndStmt prev = true
        · exact .newline ends (by rwa [if_pos ends] at newline)
        · rw [if_neg ends] at newline
          cases newline
      next newline =>
        have unbroken (ends : tokenCanEndStmt prev = true) : t.newline = none := by rwa [if_pos ends] at newline
        split at run
        next atEnd =>
          split at run
          next final =>
            cases run
            simp only [Bool.and_eq_true, Bool.not_eq_true'] at final
            exact .final final.2 (unbroken final.2) atEnd final.1
          next final =>
            cases run
            refine .eof (fun ends => ⟨unbroken ends, ?_⟩) atEnd
            simpa [ends] using final
        next c tail unread =>
          split at run
          next => cases run
          next s scanned =>
            cases run
            exact .token unbroken unread scanned
  · rintro ⟨t, skipped, step⟩
    rw [skipped]
    cases step with
    | newline ends newline => simp only [ends, newline, if_true]
    | final ends newline atEnd open_ =>
      simp only [ends, newline, atEnd, open_, if_true, Bool.not_false, Bool.and_self]
    | eof ends atEnd =>
      by_cases canEnd : tokenCanEndStmt prev = true
      · obtain ⟨newline, closed⟩ := ends canEnd
        simp only [canEnd, newline, closed, atEnd, if_true, Bool.not_true, Bool.false_and, Bool.false_eq_true, if_false]
      · simp only [canEnd, atEnd, Bool.and_false, Bool.false_eq_true, if_false]
    | token ends unread scanned =>
      have unbroken : (if tokenCanEndStmt prev = true then t.newline else none) = none := by
        by_cases canEnd : tokenCanEndStmt prev = true
        · rw [if_pos canEnd, ends canEnd]
        · rw [if_neg canEnd]
      simp only [unbroken, unread, scanned]

theorem lexRound_of {src : List UInt8} {st : LexState} {prev : TokenKind} {t : Trivia} {r : Round}
    (skipped : skipTrivia st.rest st.pos none = .ok t) (step : Round.Of src st prev t r) : lexRound src st prev = .ok r :=
  lexRound_ok_iff.mpr ⟨t, skipped, step⟩

theorem lexRound_failed {src : List UInt8} {st : LexState} {prev : TokenKind} {t : Trivia} {c : UInt8}
    {tail : List UInt8} {diag : Diag} (skipped : skipTrivia st.rest st.pos none = .ok t)
    (unbroken : tokenCanEndStmt prev = true → t.newline = none) (unread : t.rest = c :: tail)
    (scanned : scanToken src t.pos c tail = .error diag) : lexRound src st prev = .error diag := by
  have newline : (if tokenCanEndStmt prev = true then t.newline else none) = none := by
    by_cases canEnd : tokenCanEndStmt prev = true
    · rw [if_pos canEnd, unbroken canEnd]
    · rw [if_neg canEnd]
  rw [lexRound, skipped]
  simp only [newline, unread, scanned]

/-- Measure of the main loop: a round either consumes bytes or turns a token that can end a
statement into a semicolon, which cannot. -/
def LexState.weight (st : LexState) (prev : TokenKind) : Nat :=
  2 * st.rest.length + if tokenCanEndStmt prev then 1 else 0

theorem lexRound_weight {src : List UInt8} {st st' : LexState} {prev : TokenKind} {r : Round}
    (run : lexRound src st prev = .ok r) (next : r.next = some st') : st'.weight r.tok.kind < st.weight prev := by
  obtain ⟨t, skipped, step⟩ := lexRound_ok_iff.mp run
  have shorter := skipTrivia_length skipped
  have semicolon : tokenCanEndStmt .SEMICOLON = false := rfl
  cases step with
  | newline ends _ =>
    cases next
    simp only [LexState.weight, ends, semicolon, if_true, Bool.false_eq_true, if_false]
    omega
  | final ends _ _ _ =>
    cases next
    simp only [LexState.weight, ends, semicolon, if_true, Bool.false_eq_true, if_false, List.length_nil]
    omega
  | eof => cases next
  | token _ unread _ =>
    cases next
    simp only [unread, List.length_cons] at shorter
    simp only [LexState.weight, List.length_drop]
    split <;> split <;> omega

/-- The scanner's main loop; `room` is the number of tokens the buffer can still take. -/
def lexLoop (src : List UInt8) (room : Nat) (st : LexState) (prev : TokenKind) : Except Diag Lexed :=
  match _round : lexRound src st prev with
  | .error diag => .error diag
  | .ok r =>
    if room = 0 then .error ⟨.ARENA_OOM, r.tok.start, r.tok.stop⟩
    else
      match next : r.next with
      | none => .ok ⟨[r.tok], r.comments⟩
      | some st' => (lexLoop src (room - 1) st' r.tok.kind).map (Lexed.push r.tok r.comments)
termination_by st.weight prev
decreasing_by exact lexRound_weight _round next

section Step

variable {src : List UInt8} {st st' : LexState} {prev : TokenKind} {r : Round}

theorem lexLoop_failed {diag : Diag} (round : lexRound src st prev = .error diag) (room : Nat) :
    lexLoop src room st prev = .error diag := by
  unfold lexLoop
  split
  next found =>
    rw [round] at found
    cases found
    rfl
  next found =>
    rw [round] at found
    cases found

theorem lexLoop_last (round : lexRound src st prev = .ok r) (last : r.next = none) {room : Nat} (fits : 0 < room) :
    lexLoop src room st prev = .ok ⟨[r.tok], r.comments⟩ := by
  unfold lexLoop
  split
  next found =>
    rw [round] at found
    cases found
  next found =>
    rw [round] at found
    cases found
    rw [if_neg (Nat.ne_of_gt fits)]
    split
    next => rfl
    next next =>
      rw [last] at next
      cases next

theorem lexLoop_next (round : lexRound src st prev = .ok r) (next : r.next = some st') {room : Nat} (fits : 0 < room) :
    lexLoop src room st prev = (lexLoop src (room - 1) st' r.tok.kind).map (Lexed.push r.tok r.comments) := by
  conv => lhs; unfold lexLoop
  split
  next found =>
    rw [round] at found
    cases found
  next found =>
    rw [round] at found
    cases found
    rw [if_neg (Nat.ne_of_gt fits)]
    split
    next last =>
      rw [next] at last
      cases last
    next found =>
      rw [next] at found
      cases found
      rfl

end Step

/-- Capacity of the token buffer. -/
def tokenCap (src : List UInt8) : Nat :=
  if src.length + 2 < 8 then 8 else src.length + 2

def lexRun (src : List UInt8) : Except Diag Lexed :=
  lexLoop src (tokenCap src) ⟨src, 0, false⟩ .INVALID

def lex (src : List UInt8) : Except Diag (List Token) :=
  (lexRun src).map Lexed.tokens

end HopHop
