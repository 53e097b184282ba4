import HopHop.LexerNewline

namespace HopHop

/-! Acceptance and meaning of a source when a newline is appended to it. -/

/-- The token at `start` is a raw literal without a closing backquote. The last byte of the
source is taken for one although a backslash escapes it, and the bytes in between decode. -/
def OpenRaw (src : List UInt8) (start : Nat) (c : UInt8) (tail : List UInt8) : Prop :=
  c = Byte.backquote ∧ Unclosed tail ∧ tail.getLast? = some Byte.backquote ∧
    decodeStringLiteralValidate src start src.length = .ok ()

/-- Reading gap after gap and token after token from `rest` at `pos` on, the source comes to a raw
literal that has no closing backquote but ends in an escaped one. -/
inductive EndsInOpenRaw (src : List UInt8) : List UInt8 → Nat → Prop
  | here {rest pos t c tail} : skipTrivia rest pos none = .ok t → t.rest = c :: tail →
      OpenRaw src t.pos c tail → EndsInOpenRaw src rest pos
  | later {rest pos t c tail s} : skipTrivia rest pos none = .ok t → t.rest = c :: tail →
      scanToken src t.pos c tail = .ok s → EndsInOpenRaw src (tail.drop s.more) (t.pos + 1 + s.more) →
      EndsInOpenRaw src rest pos

section Token

variable {src tail : List UInt8} {start : Nat} {c : UInt8}

theorem closedBy_getLast? {quote : UInt8} (unempty : tail ≠ []) :
    closedBy quote c tail tail.length = true ↔ tail.getLast? = some quote := by
  rw [closedBy, List.getLast?_eq_getElem?]
  cases tail with
  | nil => exact absurd rfl unempty
  | cons d tail => simp [List.getD_eq_getElem?_getD]

theorem OpenRaw.scanToken (suffix : c :: tail = src.drop start) (open_ : OpenRaw src start c tail) :
    scanToken src start c tail = .ok ⟨.STRING, tail.length⟩ := by
  obtain ⟨rfl, unclosed, last, decoded⟩ := open_
  have unempty : tail ≠ [] := by
    rintro rfl
    cases last
  have closed := (closedBy_getLast? (c := Byte.backquote) unempty).mpr last
  have stop : start + 1 + tail.length = src.length := by
    have length := congrArg List.length suffix
    have within := (drop_eq_cons suffix).2.2.1
    rw [List.length_drop, List.length_cons] at length
    omega
  rw [HopHop.scanToken, if_neg (by decide), if_neg (by decide), if_neg (by decide), if_pos (by decide), scanString]
  simp only [if_true, unclosed.rawLen, closed, Bool.not_true, Bool.false_eq_true, if_false, stop, decoded]

/-- An accepted raw literal without a closing backquote ends in an escaped one. -/
theorem openRaw_of_unclosed (suffix : c :: tail = src.drop start) (raw : c = Byte.backquote) (unclosed : Unclosed tail)
    {s : Scanned} (scanned : scanString src start c tail = .ok s) : OpenRaw src start c tail := by
  subst raw
  have stop : start + 1 + tail.length = src.length := by
    have length := congrArg List.length suffix
    have within := (drop_eq_cons suffix).2.2.1
    rw [List.length_drop, List.length_cons] at length
    omega
  rw [scanString] at scanned
  simp only [if_true, unclosed.rawLen] at scanned
  split at scanned
  next => cases scanned
  next closed =>
    split at scanned
    next => cases scanned
    next decoded =>
      rw [stop] at decoded
      have unempty : tail ≠ [] := by
        rintro rfl
        rw [decodeStringLiteralValidate, decodeStringLiteralImpl, if_pos (by simp at stop; omega)] at decoded
        cases decoded
      exact ⟨rfl, unclosed, (closedBy_getLast? unempty).mp (by simpa using closed), decoded⟩

theorem closedBy_of_scan {quote : UInt8} {n : Nat} (closed : ¬ (!closedBy quote c tail n) = true) :
    closedBy quote c tail n = true := by
  simpa using closed

theorem scanString_followed (suffix : c :: tail = src.drop start) (delim : c = Byte.doubleQuote ∨ c = Byte.backquote)
    {s : Scanned} (scanned : scanString src start c tail = .ok s) (closed : ¬ OpenRaw src start c tail) :
    scanString (src ++ [Byte.newline]) start c (tail ++ [Byte.newline]) = .ok s := by
  have fits := (scanString_fits scanned).1
  have length : (if c = Byte.backquote then some (rawLen (tail ++ [Byte.newline])) else
        quotedLen c (tail ++ [Byte.newline])) =
      (if c = Byte.backquote then some (rawLen tail) else quotedLen c tail) := by
    by_cases raw : c = Byte.backquote
    · rw [if_pos raw, if_pos raw]
      rcases rawLen_append_or_unclosed tail with ends | unclosed
      · exact congrArg some (ends _)
      · exact absurd (openRaw_of_unclosed suffix raw unclosed scanned) closed
    · rw [if_neg raw, if_neg raw]
      rw [scanString, if_neg raw] at scanned
      split at scanned
      next => cases scanned
      next n found =>
        split at scanned
        next => cases scanned
        next =>
          split at scanned
          next => cases scanned
          next decoded =>
            have quoted : c = Byte.doubleQuote ∨ c = Byte.singleQuote := Or.inl (delim.resolve_right raw)
            have ends := closes_of_decoded suffix quoted found decoded (quotedLen_le_length found)
            rw [found]
            exact ends _
  rw [scanString] at scanned ⊢
  rw [length]
  cases found : (if c = Byte.backquote then some (rawLen tail) else quotedLen c tail) with
  | none =>
    rw [found] at scanned
    cases scanned
  | some n =>
    have inside : n ≤ tail.length := by
      split at found
      · cases found
        exact rawLen_le_length tail
      · exact quotedLen_le_length found
    rw [found] at scanned
    simp only [closedBy_append _ _ inside, decodeStringLiteralValidate,
      decodeStringLiteralImpl_append _ _ (scan_bound suffix inside)] at scanned ⊢
    exact scanned

theorem scanRune_followed (suffix : c :: tail = src.drop start) (delim : c = Byte.singleQuote) {s : Scanned}
    (scanned : scanRune src start c tail = .ok s) :
    scanRune (src ++ [Byte.newline]) start c (tail ++ [Byte.newline]) = .ok s := by
  subst delim
  rw [scanRune] at scanned ⊢
  split at scanned
  next => cases scanned
  next n found =>
    have inside := quotedLen_le_length found
    split at scanned
    next => cases scanned
    next closed =>
      split at scanned
      next => cases scanned
      next decoded =>
        have impl : ∃ collector, decodeStringLiteralImpl runeCollectorEmit {} src start (start + 1 + n) =
            .ok collector := by
          rw [decodeRuneLiteralValidate] at decoded
          split at decoded
          next => cases decoded
          next collector found => exact ⟨collector, found⟩
        obtain ⟨collector, impl⟩ := impl
        have ends := closes_of_decoded suffix (Or.inr rfl) found impl inside
        have same : decodeRuneLiteralValidate (src ++ [Byte.newline]) start (start + 1 + n) =
            decodeRuneLiteralValidate src start (start + 1 + n) := by
          rw [decodeRuneLiteralValidate, decodeRuneLiteralValidate,
            decodeStringLiteralImpl_append _ _ (scan_bound suffix inside)]
        rw [ends [Byte.newline]]
        simp only [closedBy_append _ _ inside, closedBy_of_scan closed, same, decoded, Bool.not_true,
          Bool.false_eq_true, if_false]
        exact scanned

/-- A token survives an appended newline unless it is an open raw literal, and an error stays one. -/
theorem scanToken_newline (suffix : c :: tail = src.drop start) (visible : c ≠ Byte.newline) :
    (∃ s, scanToken src start c tail = .ok s ∧ ¬ OpenRaw src start c tail ∧
      scanToken (src ++ [Byte.newline]) start c (tail ++ [Byte.newline]) = .ok s) ∨
    (∃ diag diag', scanToken src start c tail = .error diag ∧
      scanToken (src ++ [Byte.newline]) start c (tail ++ [Byte.newline]) = .error diag') ∨
    (OpenRaw src start c tail ∧
      ∃ diag, scanToken (src ++ [Byte.newline]) start c (tail ++ [Byte.newline]) = .error diag) := by
  by_cases open_ : OpenRaw src start c tail
  · refine Or.inr (Or.inr ⟨open_, ?_⟩)
    obtain ⟨rfl, unclosed, _, _⟩ := open_
    refine ⟨⟨.UNTERMINATED_STRING, start, start + 1 + (tail ++ [Byte.newline]).length⟩, ?_⟩
    rw [scanToken, if_neg (by decide), if_neg (by decide), if_neg (by decide), if_pos (by decide), scanString]
    simp only [if_true, unclosed.newline.rawLen]
    rw [List.length_append, List.length_singleton, closedBy_newline (by decide)]
    rfl
  · cases scanned : scanToken src start c tail with
    | ok s =>
      refine Or.inl ⟨s, rfl, open_, ?_⟩
      unfold scanToken at scanned ⊢
      split_ifs at scanned ⊢ with ident number rune string
      · rw [scanIdent_newline]
        exact scanned
      · rw [scanNumber_newline]
        exact scanned
      · exact scanRune_followed suffix rune scanned
      · exact scanString_followed suffix string scanned open_
      · rw [scanPunct_newline start visible]
        exact scanned
    | error diag =>
      refine Or.inr (Or.inl ⟨diag, ?_⟩)
      suffices failed : scanToken (src ++ [Byte.newline]) start c (tail ++ [Byte.newline]) = scanToken src start c tail ∨
          ∃ diag', scanToken (src ++ [Byte.newline]) start c (tail ++ [Byte.newline]) = .error diag' by
        rcases failed with same | ⟨diag', failed⟩
        · exact ⟨diag, rfl, same.trans scanned⟩
        · exact ⟨diag', rfl, failed⟩
      unfold scanToken
      split_ifs with ident number rune string
      · rw [scanIdent_newline]
        exact Or.inl rfl
      · rw [scanNumber_newline]
        exact Or.inl rfl
      · exact scanRune_newline suffix
      · exact scanString_newline suffix visible
      · rw [scanPunct_newline start visible]
        exact Or.inl rfl

end Token

/-- Both scans fail, or both succeed with the same kinds and the same tokens that cover bytes. -/
def SameMeaning : Except Diag (List Token) → Except Diag (List Token) → Prop
  | .ok toks, .ok toks' => toks.map Token.kind = toks'.map Token.kind ∧
      toks.filter (fun tok => tok.start < tok.stop) = toks'.filter (fun tok => tok.start < tok.stop)
  | .error _, .error _ => True
  | _, _ => False

theorem sameMeaning_push {a b : Except Diag Lexed} (tok : Token) (comments comments' : List (Nat × Nat)) :
    SameMeaning ((a.map (Lexed.push tok comments)).map Lexed.tokens) ((b.map (Lexed.push tok comments')).map Lexed.tokens) ↔
      SameMeaning (a.map Lexed.tokens) (b.map Lexed.tokens) := by
  cases a with
  | error => cases b <;> exact Iff.rfl
  | ok lexed =>
    cases b with
    | error => exact Iff.rfl
    | ok lexed' =>
      simp only [Except.map, SameMeaning, Lexed.push, List.map_cons, List.cons.injEq, true_and, List.filter_cons]
      by_cases covers : tok.start < tok.stop <;> simp [covers]

theorem endsInOpenRaw_skip {src rest : List UInt8} {pos : Nat} {t : Trivia} (skipped : skipTrivia rest pos none = .ok t)
    (starts : StartsToken t.rest) : EndsInOpenRaw src t.rest t.pos ↔ EndsInOpenRaw src rest pos := by
  have idle := skipTrivia_idle starts t.pos none
  constructor
  · intro ends
    cases ends with
    | here skipped' unread open_ =>
      rw [idle] at skipped'
      cases skipped'
      exact .here skipped unread open_
    | later skipped' unread scanned ends =>
      rw [idle] at skipped'
      cases skipped'
      exact .later skipped unread scanned ends
  · intro ends
    cases ends with
    | here skipped' unread open_ =>
      rw [skipped] at skipped'
      cases skipped'
      exact .here idle unread open_
    | later skipped' unread scanned ends =>
      rw [skipped] at skipped'
      cases skipped'
      exact .later idle unread scanned ends

theorem not_endsInOpenRaw_end {src rest : List UInt8} {pos : Nat} {t : Trivia}
    (skipped : skipTrivia rest pos none = .ok t) (ended : t.rest = []) : ¬ EndsInOpenRaw src rest pos := by
  intro ends
  cases ends with
  | here skipped' unread _ =>
    rw [skipped] at skipped'
    cases skipped'
    rw [ended] at unread
    cases unread
  | later skipped' unread _ _ =>
    rw [skipped] at skipped'
    cases skipped'
    rw [ended] at unread
    cases unread

/-- A gap with a newline in it is not empty. -/
theorem rest_shorter {src rest : List UInt8} {pos newlinePos : Nat} {t : Trivia}
    (skipped : skipTrivia rest pos none = .ok t) (suffix : rest = src.drop pos) (bound : pos ≤ src.length)
    (newline : t.newline = some newlinePos) : t.rest.length < rest.length := by
  obtain ⟨gap, final, inside, _, found⟩ := skipTrivia_spec skipped suffix bound
  rw [newline, Option.none_or] at found
  have place := firstNewline_eq_some found.symm
  rw [final, suffix, List.length_drop, List.length_drop]
  omega

section Newline

variable {src : List UInt8} {room room' : Nat} {st : LexState} {prev : TokenKind} {t : Trivia}

/-- The state of the second scan that corresponds to a state of the first. -/
def LexState.followed (st : LexState) : LexState :=
  ⟨st.rest ++ [Byte.newline], st.pos, false⟩

/-- At the end of input the appended newline takes the place of the semicolon inserted there. -/
theorem lexLoop_newline_end (skipped : skipTrivia st.rest st.pos none = .ok t) (ended : t.rest = [])
    (atEnd : t.pos = src.length) (unended : st.insertedEOFSemicolon = false) (fits : 2 ≤ room) (fits' : 2 ≤ room') :
    SameMeaning ((lexLoop src room st prev).map Lexed.tokens)
      ((lexLoop (src ++ [Byte.newline]) room' st.followed prev).map Lexed.tokens) := by
  have skipped' := skipTrivia_newline skipped
  rw [Trivia.newlineAdded, if_pos ended] at skipped'
  by_cases canEnd : tokenCanEndStmt prev = true
  · cases newline : t.newline with
    | none =>
      have round : lexRound src st prev = .ok _ := lexRound_of skipped (.final canEnd newline ended unended)
      have round' : lexRound (src ++ [Byte.newline]) st.followed prev = .ok _ :=
        lexRound_of skipped' (.newline canEnd (by rw [newline]; rfl))
      rw [lexLoop_next round rfl (by omega), lexLoop_next round' rfl (by omega), atEnd, sameMeaning_push]
      simp only [lexLoop_ended, if_neg (show ¬ room - 1 = 0 by omega), if_neg (show ¬ room' - 1 = 0 by omega)]
      simp [Except.map, SameMeaning]
    | some newlinePos =>
      have round : lexRound src st prev = .ok _ := lexRound_of skipped (.newline canEnd newline)
      have round' : lexRound (src ++ [Byte.newline]) st.followed prev = .ok _ :=
        lexRound_of skipped' (.newline canEnd (by rw [newline]; rfl))
      rw [lexLoop_next round rfl (by omega), lexLoop_next round' rfl (by omega), sameMeaning_push]
      simp only [ended, lexLoop_ended, if_neg (show ¬ room - 1 = 0 by omega), if_neg (show ¬ room' - 1 = 0 by omega)]
      simp [Except.map, SameMeaning]
  · have round : lexRound src st prev = .ok _ := lexRound_of skipped (.eof (fun ends => absurd ends canEnd) ended)
    have round' : lexRound (src ++ [Byte.newline]) st.followed prev = .ok _ :=
      lexRound_of skipped' (.eof (fun ends => absurd ends canEnd) rfl)
    rw [lexLoop_last round rfl (by omega), lexLoop_last round' rfl (by omega)]
    simp [Except.map, SameMeaning]

/-- After an open raw literal only the end of the source is left, so the scan succeeds. -/
theorem lexLoop_openRaw {c : UInt8} {tail : List UInt8} (skipped : skipTrivia st.rest st.pos none = .ok t)
    (unread : t.rest = c :: tail) (suffix : c :: tail = src.drop t.pos) (open_ : OpenRaw src t.pos c tail)
    (unbroken : tokenCanEndStmt prev = true → t.newline = none) (unended : st.insertedEOFSemicolon = false)
    (fits : 3 ≤ room) : ∃ lexed, lexLoop src room st prev = .ok lexed := by
  have round : lexRound src st prev = .ok _ := lexRound_of skipped (.token unbroken unread (open_.scanToken suffix))
  have idle := skipTrivia_idle (show StartsToken (tail.drop tail.length) by rw [List.drop_length]; nofun)
    (t.pos + 1 + tail.length) none
  have round' : lexRound src ⟨tail.drop tail.length, t.pos + 1 + tail.length, st.insertedEOFSemicolon⟩ .STRING =
      .ok ⟨⟨.SEMICOLON, src.length, src.length⟩, [], some ⟨[], t.pos + 1 + tail.length, true⟩⟩ :=
    lexRound_of idle (.final rfl rfl List.drop_length unended)
  rw [lexLoop_next round rfl (by omega), lexLoop_next round' rfl (by omega), lexLoop_ended, if_neg (by omega)]
  exact ⟨_, rfl⟩

theorem lexLoop_newline (suffix : st.rest = src.drop st.pos) (bound : st.pos ≤ src.length)
    (unended : st.insertedEOFSemicolon = false) (fits : st.rest.length + 2 ≤ room) (fits' : st.rest.length + 3 ≤ room') :
    SameMeaning ((lexLoop src room st prev).map Lexed.tokens)
      ((lexLoop (src ++ [Byte.newline]) room' st.followed prev).map Lexed.tokens) ↔
        ¬ EndsInOpenRaw src st.rest st.pos := by
  induction measure : st.weight prev using Nat.strong_induction_on generalizing st prev room room' with
  | _ weight ih =>
  cases skipped : skipTrivia st.rest st.pos none with
  | error diag =>
    obtain ⟨diag', failed⟩ := skipTrivia_failed skipped
    have round : lexRound src st prev = .error diag := by rw [lexRound, skipped]
    have round' : lexRound (src ++ [Byte.newline]) st.followed prev = .error diag' := by
      rw [lexRound, LexState.followed, failed]
    rw [lexLoop_failed round, lexLoop_failed round']
    refine ⟨fun _ ends => ?_, fun _ => trivial⟩
    cases ends with
    | here skipped' => cases skipped.symm.trans skipped'
    | later skipped' => cases skipped.symm.trans skipped'
  | ok t =>
    obtain ⟨gap, final, inside, starts, _⟩ := skipTrivia_spec skipped suffix bound
    by_cases ended : t.rest = []
    · have atEnd : t.pos = src.length := by
        rw [ended] at final
        have beyond := List.drop_eq_nil_iff.mp final.symm
        omega
      exact ⟨fun _ => not_endsInOpenRaw_end skipped ended,
        fun _ => lexLoop_newline_end skipped ended atEnd unended (by omega) (by omega)⟩
    · have skipped' := skipTrivia_newline skipped
      rw [Trivia.newlineAdded, if_neg ended] at skipped'
      have shorter := skipTrivia_length skipped
      by_cases broken : tokenCanEndStmt prev = true ∧ ∃ newlinePos, t.newline = some newlinePos
      · obtain ⟨canEnd, newlinePos, newline⟩ := broken
        have round : lexRound src st prev = .ok _ := lexRound_of skipped (.newline canEnd newline)
        have round' : lexRound (src ++ [Byte.newline]) st.followed prev = .ok _ :=
          lexRound_of skipped' (.newline canEnd newline)
        have consumed := rest_shorter skipped suffix bound newline
        have less := lexRound_weight round rfl
        rw [lexLoop_next round rfl (by omega), lexLoop_next round' rfl (by omega), sameMeaning_push,
          ← endsInOpenRaw_skip skipped starts]
        exact @ih _ (measure ▸ less) (room - 1) (room' - 1) ⟨t.rest, t.pos, st.insertedEOFSemicolon⟩ .SEMICOLON final inside unended
          (by simp only; omega) (by simp only; omega) rfl
      · have unbroken : tokenCanEndStmt prev = true → t.newline = none := by
          intro canEnd
          by_contra some
          exact broken ⟨canEnd, Option.ne_none_iff_exists'.mp some⟩
        obtain ⟨c, tail, unread⟩ := List.exists_cons_of_ne_nil ended
        obtain ⟨here, text, within, _⟩ := drop_eq_cons (unread.symm.trans final)
        have visible : c ≠ Byte.newline := by
          rintro rfl
          exact absurd (starts _ _ unread).1 (by decide)
        rw [unread, List.length_cons] at shorter
        have unread' : t.rest ++ [Byte.newline] = c :: (tail ++ [Byte.newline]) := by rw [unread, List.cons_append]
        have failed {diag : Diag} (refused : scanToken (src ++ [Byte.newline]) t.pos c (tail ++ [Byte.newline]) =
            .error diag) : lexRound (src ++ [Byte.newline]) st.followed prev = .error diag :=
          @lexRound_failed _ st.followed prev ⟨t.rest ++ [Byte.newline], t.pos, t.newline, t.comments⟩ _ _ _ skipped'
            unbroken unread' refused
        rcases scanToken_newline (unread.symm.trans final) visible with
          ⟨s, scanned, closed, scanned'⟩ | ⟨diag, diag', scanned, scanned'⟩ | ⟨open_, diag, scanned'⟩
        · have round : lexRound src st prev = .ok _ := lexRound_of skipped (.token unbroken unread scanned)
          have round' : lexRound (src ++ [Byte.newline]) st.followed prev = .ok _ :=
            lexRound_of skipped' (.token unbroken unread' scanned')
          have less := lexRound_weight round rfl
          have stop := scan_bound (unread.symm.trans final) (scanToken_fits scanned).1
          have ends : EndsInOpenRaw src st.rest st.pos ↔
              EndsInOpenRaw src (tail.drop s.more) (t.pos + 1 + s.more) := by
            constructor
            · intro ends
              cases ends with
              | here skipped' unread' open_ =>
                cases skipped.symm.trans skipped'
                cases unread.symm.trans unread'
                exact absurd open_ closed
              | later skipped' unread' scanned' ends =>
                cases skipped.symm.trans skipped'
                cases unread.symm.trans unread'
                cases scanned.symm.trans scanned'
                exact ends
            · exact .later skipped unread scanned
          rw [lexLoop_next round rfl (by omega), lexLoop_next round' rfl (by omega), sameMeaning_push, ends]
          have next : LexState.mk ((tail ++ [Byte.newline]).drop s.more) (t.pos + 1 + s.more) false =
              LexState.followed ⟨tail.drop s.more, t.pos + 1 + s.more, st.insertedEOFSemicolon⟩ := by
            rw [LexState.followed, List.drop_append_of_le_length (scanToken_fits scanned).1]
          change SameMeaning _ ((lexLoop _ _ ⟨(tail ++ [Byte.newline]).drop s.more, t.pos + 1 + s.more, false⟩ _).map _) ↔ _
          rw [next]
          exact @ih _ (measure ▸ less) (room - 1) (room' - 1)
            ⟨tail.drop s.more, t.pos + 1 + s.more, st.insertedEOFSemicolon⟩ s.kind (by simp only [text, List.drop_drop]) stop unended (by simp only [List.length_drop]; omega)
            (by simp only [List.length_drop]; omega) rfl
        · have ends : ¬ EndsInOpenRaw src st.rest st.pos := by
            intro ends
            cases ends with
            | here skipped' unread' open_ =>
              cases skipped.symm.trans skipped'
              cases unread.symm.trans unread'
              cases scanned.symm.trans (open_.scanToken (unread.symm.trans final))
            | later skipped' unread' scanned' _ =>
              cases skipped.symm.trans skipped'
              cases unread.symm.trans unread'
              cases scanned.symm.trans scanned'
          rw [lexLoop_failed (lexRound_failed skipped unbroken unread scanned),
            lexLoop_failed (failed scanned')]
          exact ⟨fun _ => ends, fun _ => trivial⟩
        · obtain ⟨lexed, accepted⟩ :=
            lexLoop_openRaw skipped unread (unread.symm.trans final) open_ unbroken unended (show 3 ≤ room by omega)
          rw [accepted, lexLoop_failed (failed scanned')]
          exact ⟨False.elim, fun closed => closed (.here skipped unread open_)⟩

end Newline

/-- Appending a newline to a source changes neither acceptance nor kinds nor covered spans. -/
def NewlineNeutral (src : List UInt8) : Prop :=
  SameMeaning (lex src) (lex (src ++ [Byte.newline]))

theorem newlineNeutral_iff (src : List UInt8) : NewlineNeutral src ↔ ¬ EndsInOpenRaw src src 0 := by
  have fits : src.length + 2 ≤ tokenCap src := by
    unfold tokenCap
    split <;> omega
  have fits' : src.length + 3 ≤ tokenCap (src ++ [Byte.newline]) := by
    unfold tokenCap
    rw [List.length_append, List.length_singleton]
    split <;> omega
  exact @lexLoop_newline src _ _ ⟨src, 0, false⟩ _ rfl (Nat.zero_le _) rfl fits fits'

theorem not_newlineNeutral_escaped : ¬ NewlineNeutral (bytesOf "\x60a\\\x60") := by
  intro neutral
  have accepted : lex (bytesOf "\x60a\\\x60") = .ok [⟨.STRING, 0, 4⟩, ⟨.SEMICOLON, 4, 4⟩, ⟨.EOF, 4, 4⟩] := by
    decide +kernel
  have refused : lex (bytesOf "\x60a\\\x60" ++ [Byte.newline]) = .error ⟨.UNTERMINATED_STRING, 0, 5⟩ := by
    decide +kernel
  rw [NewlineNeutral, accepted, refused] at neutral
  exact neutral

end HopHop
