import HopHop.LexerTokens

namespace HopHop

/-! The token list, rebuilt from the tokens that cover bytes. -/

/-- The semicolon a gap `[a, b)` after a token of kind `prev` is given. -/
def gapSemicolon (src : List UInt8) (prev : TokenKind) (a b : Nat) : List Token :=
  if tokenCanEndStmt prev then
    match firstNewline src a b with
    | some newline => [⟨.SEMICOLON, newline, newline⟩]
    | none => []
  else []

/-- What follows the last token that covers bytes, of kind `prev` and ending at `a`. -/
def endTokens (src : List UInt8) (prev : TokenKind) (a : Nat) : List Token :=
  gapSemicolon src prev a src.length ++
    (if tokenCanEndStmt (((gapSemicolon src prev a src.length).getLast?.map Token.kind).getD prev) then
      [⟨.SEMICOLON, src.length, src.length⟩]
    else []) ++
    [⟨.EOF, src.length, src.length⟩]

/-- The tokens that cover bytes, with the semicolons inserted after them and the end marker. -/
def layOut (src : List UInt8) (prev : TokenKind) (a : Nat) : List Token → List Token
  | [] => endTokens src prev a
  | tok :: toks => gapSemicolon src prev a tok.start ++ tok :: layOut src tok.kind tok.stop toks

/-- From `a` on the source is a sequence of gaps and nonempty tokens. -/
inductive Tiling (src : List UInt8) : Nat → List Token → List (Nat × Nat) → Prop
  | last {a comments} : Gap src a src.length comments → Tiling src a [] comments
  | token {a tok toks first rest} : Gap src a tok.start first → tok.start < tok.stop → tok.stop ≤ src.length →
      tok.kind ≠ .EOF → Tiling src tok.stop toks rest → Tiling src a (tok :: toks) (first ++ rest)

theorem Tiling.prepend {src : List UInt8} {a m : Nat} {toks : List Token} {first rest : List (Nat × Nat)}
    (gap : Gap src a m first) (tiling : Tiling src m toks rest) : Tiling src a toks (first ++ rest) := by
  cases tiling with
  | last final => exact .last (gap.append final)
  | token next covers bound kind tiling =>
    rw [← List.append_assoc]
    exact .token (gap.append next) covers bound kind tiling

theorem Tiling.le {src : List UInt8} {a : Nat} {toks : List Token} {comments : List (Nat × Nat)}
    (tiling : Tiling src a toks comments) : a ≤ src.length := by
  induction tiling with
  | last gap => exact gap.le
  | token gap _ bound _ _ _ =>
    have start := gap.le
    omega

theorem gapSemicolon_semicolon (src : List UInt8) (a b : Nat) : gapSemicolon src .SEMICOLON a b = [] :=
  rfl

theorem gapSemicolon_some {src : List UInt8} {prev : TokenKind} {a m b newline : Nat}
    (ends : tokenCanEndStmt prev = true) (found : firstNewline src a m = some newline) (left : a ≤ m) (right : m ≤ b) :
    gapSemicolon src prev a b = [⟨.SEMICOLON, newline, newline⟩] := by
  rw [gapSemicolon, if_pos ends, firstNewline_append src left right, found]
  rfl

/-- Once the first newline of a gap is known, its semicolon can be emitted and the rest of the
gap scanned as if it began there. -/
theorem layOut_semicolon {src : List UInt8} {prev : TokenKind} {a m newline : Nat} {toks : List Token}
    {comments : List (Nat × Nat)} (ends : tokenCanEndStmt prev = true)
    (found : firstNewline src a m = some newline) (left : a ≤ m) (tiling : Tiling src m toks comments) :
    layOut src prev a toks = ⟨.SEMICOLON, newline, newline⟩ :: layOut src .SEMICOLON m toks := by
  cases tiling with
  | last gap =>
    have semicolon := gapSemicolon_some ends found left gap.le
    simp only [layOut, endTokens, semicolon, gapSemicolon_semicolon]
    rfl
  | token gap _ _ _ _ =>
    simp only [layOut, gapSemicolon_some ends found left gap.le, gapSemicolon_semicolon]
    rfl

theorem map_ok {α β : Type} {f : α → β} {r : Except Diag α} {b : β} (run : Except.map f r = .ok b) :
    ∃ a, r = .ok a ∧ f a = b := by
  cases r with
  | error diag => cases run
  | ok a =>
    cases run
    exact ⟨a, rfl, rfl⟩

/-- At the end of input after an inserted semicolon only the end marker is left to store. -/
theorem lexLoop_ended (src : List UInt8) (room pos : Nat) (flag : Bool) :
    lexLoop src room ⟨[], pos, flag⟩ .SEMICOLON =
      if room = 0 then .error ⟨.ARENA_OOM, src.length, src.length⟩
      else .ok ⟨[⟨.EOF, src.length, src.length⟩], []⟩ := by
  have round : lexRound src ⟨[], pos, flag⟩ .SEMICOLON =
      .ok ⟨⟨.EOF, src.length, src.length⟩, [], none⟩ :=
    lexRound_ok_iff.mpr ⟨⟨[], pos, none, []⟩, by rw [skipTrivia], .eof nofun rfl⟩
  by_cases full : room = 0
  · rw [if_pos full, lexLoop]
    split
    next failed =>
      rw [round] at failed
      cases failed
    next found =>
      rw [round] at found
      cases found
      rw [if_pos full]
  · rw [if_neg full, lexLoop_last round rfl (by omega)]

theorem gapSemicolon_none {src : List UInt8} {prev : TokenKind} {a b : Nat}
    (unbroken : tokenCanEndStmt prev = true → firstNewline src a b = none) : gapSemicolon src prev a b = [] := by
  unfold gapSemicolon
  split
  next ends => rw [unbroken ends]
  next => rfl

theorem layOut_nil {src : List UInt8} {prev : TokenKind} {a : Nat}
    (unbroken : tokenCanEndStmt prev = true → firstNewline src a src.length = none) :
    layOut src prev a [] = (if tokenCanEndStmt prev then [⟨.SEMICOLON, src.length, src.length⟩] else []) ++
      [⟨.EOF, src.length, src.length⟩] := by
  simp only [layOut, endTokens, gapSemicolon_none unbroken]
  rfl

/-- The main loop lays out a tiling of the unread source. -/
theorem lexLoop_spec {src : List UInt8} {room : Nat} {st : LexState} {prev : TokenKind} {lexed : Lexed}
    (run : lexLoop src room st prev = .ok lexed) (suffix : st.rest = src.drop st.pos) (bound : st.pos ≤ src.length)
    (unended : st.insertedEOFSemicolon = false) :
    ∃ toks, Tiling src st.pos toks lexed.comments ∧ lexed.tokens = layOut src prev st.pos toks := by
  fun_induction lexLoop src room st prev generalizing lexed with
  | case1 => cases run
  | case2 => cases run
  | case3 room st prev r round room' last =>
    cases run
    obtain ⟨t, skipped, step⟩ := lexRound_ok_iff.mp round
    obtain ⟨gap, final, inside, _, found⟩ := skipTrivia_spec skipped suffix bound
    cases step with
    | newline | final | token => cases last
    | eof ends atEnd =>
      have ended : t.pos = src.length := by
        rw [atEnd] at final
        have beyond := List.drop_eq_nil_iff.mp final.symm
        omega
      rw [ended] at gap found
      refine ⟨[], .last gap, ?_⟩
      have cannot : ¬ tokenCanEndStmt prev = true := by
        intro canEnd
        rw [(ends canEnd).2] at unended
        cases unended
      rw [layOut_nil (fun canEnd => absurd canEnd cannot), if_neg cannot]
      rfl
  | case4 room st prev r round room' st' next ih =>
    obtain ⟨inner, continued, rfl⟩ := map_ok run
    obtain ⟨t, skipped, step⟩ := lexRound_ok_iff.mp round
    obtain ⟨gap, final, inside, _, found⟩ := skipTrivia_spec skipped suffix bound
    rw [Option.none_or] at found
    cases step with
    | newline ends newline =>
      cases next
      obtain ⟨toks, tiling, tokens⟩ := ih continued final inside unended
      refine ⟨toks, .prepend gap tiling, ?_⟩
      change _ :: inner.tokens = _
      rw [tokens, layOut_semicolon ends (found.symm.trans newline) gap.le tiling]
    | final ends newline atEnd open_ =>
      cases next
      rw [lexLoop_ended] at continued
      have ended : t.pos = src.length := by
        rw [atEnd] at final
        have beyond := List.drop_eq_nil_iff.mp final.symm
        omega
      rw [ended] at gap found
      have last : inner = ⟨[⟨.EOF, src.length, src.length⟩], []⟩ := by
        split at continued
        · cases continued
        · cases continued
          rfl
      cases last
      refine ⟨[], .prepend gap (.last .empty), ?_⟩
      rw [layOut_nil (fun _ => found.symm.trans newline), if_pos ends]
      rfl
    | eof => cases next
    | @token c tail s ends unread scanned =>
      cases next
      obtain ⟨fits, kind⟩ := scanToken_fits scanned
      obtain ⟨here, text, within, _⟩ := drop_eq_cons (unread.symm.trans final)
      have length := congrArg List.length text
      rw [List.length_drop] at length
      have stop : t.pos + 1 + s.more ≤ src.length := by omega
      obtain ⟨toks, tiling, tokens⟩ := ih continued (by simp only [text, List.drop_drop]) stop unended
      refine ⟨⟨s.kind, t.pos, t.pos + 1 + s.more⟩ :: toks, ?_, ?_⟩
      · exact .token gap (by simp only; omega) stop kind tiling
      · change _ :: inner.tokens = _
        rw [tokens, layOut, gapSemicolon_none (fun canEnd => found.symm.trans (ends canEnd))]
        rfl

theorem gapSemicolon_cases (src : List UInt8) (prev : TokenKind) (a b : Nat) :
    gapSemicolon src prev a b = [] ∨
      ∃ newline, gapSemicolon src prev a b = [⟨.SEMICOLON, newline, newline⟩] ∧ a ≤ newline ∧ newline < b := by
  unfold gapSemicolon
  split
  · split
    next newline found =>
      have place := firstNewline_eq_some found
      exact Or.inr ⟨newline, rfl, place.1, place.2.1⟩
    next => exact Or.inl rfl
  · exact Or.inl rfl

theorem endTokens_cases (src : List UInt8) (prev : TokenKind) {a : Nat} (bound : a ≤ src.length) :
    ∃ before, endTokens src prev a = before ++ [⟨.EOF, src.length, src.length⟩] ∧
      (before = [] ∨ ∃ newline, before = [⟨.SEMICOLON, newline, newline⟩] ∧ a ≤ newline ∧ newline ≤ src.length) := by
  refine ⟨_, rfl, ?_⟩
  rcases gapSemicolon_cases src prev a src.length with none | ⟨newline, one, after, before⟩
  · rw [none]
    by_cases ends : tokenCanEndStmt prev = true
    · exact Or.inr ⟨src.length, by simp [ends], bound, Nat.le_refl _⟩
    · exact Or.inl (by simp [ends])
  · rw [one]
    exact Or.inr ⟨newline, rfl, after, Nat.le_of_lt before⟩

section Layout

variable {src : List UInt8} {a : Nat} {toks : List Token} {comments : List (Nat × Nat)}

theorem Tiling.layOut_bounds (tiling : Tiling src a toks comments) (prev : TokenKind) :
    ∀ tok ∈ layOut src prev a toks, a ≤ tok.start ∧ tok.start ≤ tok.stop ∧ tok.stop ≤ src.length := by
  induction tiling generalizing prev with
  | @last a _ gap =>
    intro tok member
    have bound := gap.le
    obtain ⟨before, split, shape⟩ := endTokens_cases src prev bound
    rw [layOut, split] at member
    rcases List.mem_append.mp member with semicolon | eof
    · rcases shape with rfl | ⟨newline, rfl, after, inside⟩
      · cases semicolon
      · cases List.mem_singleton.mp semicolon
        exact ⟨after, Nat.le_refl _, inside⟩
    · cases List.mem_singleton.mp eof
      exact ⟨bound, Nat.le_refl _, Nat.le_refl _⟩
  | @token a next toks _ _ gap covers bound _ _ ih =>
    intro tok member
    have start := gap.le
    rcases List.mem_append.mp member with semicolon | later
    · rcases gapSemicolon_cases src prev a next.start with none | ⟨newline, one, after, before⟩
      · rw [none] at semicolon
        cases semicolon
      · rw [one] at semicolon
        cases List.mem_singleton.mp semicolon
        exact ⟨after, Nat.le_refl _, by simp only; omega⟩
    · rcases List.mem_cons.mp later with rfl | rest
      · exact ⟨start, Nat.le_of_lt covers, bound⟩
      · obtain ⟨after, ordered, inside⟩ := ih next.kind tok rest
        exact ⟨by omega, ordered, inside⟩

theorem Tiling.layOut_increasing (tiling : Tiling src a toks comments) (prev : TokenKind) :
    (layOut src prev a toks).Pairwise fun a b => a.stop ≤ b.start ∧
      (a.start < b.start ∨ a = ⟨.SEMICOLON, src.length, src.length⟩ ∧ b = ⟨.EOF, src.length, src.length⟩) := by
  induction tiling generalizing prev with
  | @last a _ gap =>
    obtain ⟨before, split, shape⟩ := endTokens_cases src prev gap.le
    rw [layOut, split]
    rcases shape with rfl | ⟨newline, rfl, after, inside⟩
    · exact List.pairwise_singleton _ _
    · refine List.pairwise_pair.mpr ⟨inside, ?_⟩
      by_cases final : newline = src.length
      · exact Or.inr ⟨by rw [final], rfl⟩
      · exact Or.inl (by simp only; omega)
  | @token a next toks _ _ gap covers bound _ tiling ih =>
    have later : (next :: layOut src next.kind next.stop toks).Pairwise fun a b => a.stop ≤ b.start ∧
        (a.start < b.start ∨ a = ⟨.SEMICOLON, src.length, src.length⟩ ∧ b = ⟨.EOF, src.length, src.length⟩) := by
      refine List.pairwise_cons.mpr ⟨fun tok member => ?_, ih next.kind⟩
      obtain ⟨after, _, _⟩ := tiling.layOut_bounds next.kind tok member
      exact ⟨after, Or.inl (by omega)⟩
    rw [layOut]
    rcases gapSemicolon_cases src prev a next.start with none | ⟨newline, one, after, before⟩
    · rw [none]
      exact later
    · rw [one]
      refine List.pairwise_cons.mpr ⟨fun tok member => ?_, later⟩
      rcases List.mem_cons.mp member with rfl | rest
      · exact ⟨Nat.le_of_lt before, Or.inl before⟩
      · obtain ⟨beyond, _, _⟩ := tiling.layOut_bounds next.kind tok rest
        exact ⟨by simp only; omega, Or.inl (by simp only; omega)⟩

/-- The tokens of the tiling are found again as the ones that cover bytes. -/
theorem Tiling.filter_layOut (tiling : Tiling src a toks comments) (prev : TokenKind) :
    (layOut src prev a toks).filter (fun tok => tok.start < tok.stop) = toks := by
  induction tiling generalizing prev with
  | @last a _ gap =>
    obtain ⟨before, split, shape⟩ := endTokens_cases src prev gap.le
    rw [layOut, split]
    rcases shape with rfl | ⟨newline, rfl, _, _⟩ <;> simp
  | @token a next toks _ _ gap covers bound _ tiling ih =>
    rw [layOut, List.filter_append, List.filter_cons_of_pos (by simpa using covers), ih]
    rcases gapSemicolon_cases src prev a next.start with none | ⟨newline, one, _, _⟩
    · rw [none]
      rfl
    · rw [one]
      simp

theorem Tiling.layOut_ends (tiling : Tiling src a toks comments) (prev : TokenKind) :
    ∃ before, layOut src prev a toks = before ++ [⟨.EOF, src.length, src.length⟩] ∧
      ∀ tok ∈ before, tok.kind ≠ .EOF := by
  induction tiling generalizing prev with
  | @last a _ gap =>
    obtain ⟨before, split, shape⟩ := endTokens_cases src prev gap.le
    refine ⟨before, split, fun tok member => ?_⟩
    rcases shape with rfl | ⟨newline, rfl, _, _⟩
    · cases member
    · cases List.mem_singleton.mp member
      nofun
  | @token a next toks _ _ gap covers bound kind tiling ih =>
    obtain ⟨before, split, others⟩ := ih next.kind
    refine ⟨gapSemicolon src prev a next.start ++ next :: before, by rw [layOut, split]; simp, fun tok member => ?_⟩
    rcases List.mem_append.mp member with semicolon | later
    · rcases gapSemicolon_cases src prev a next.start with none | ⟨newline, one, _, _⟩
      · rw [none] at semicolon
        cases semicolon
      · rw [one] at semicolon
        cases List.mem_singleton.mp semicolon
        nofun
    · rcases List.mem_cons.mp later with rfl | rest
      · exact kind
      · exact others tok rest

theorem Tiling.covered (tiling : Tiling src a toks comments) {i : Nat} (after : a ≤ i) (before : i < src.length) :
    (∃ tok ∈ toks, tok.start ≤ i ∧ i < tok.stop) ∨ (∃ c, src[i]? = some c ∧ isWhitespace c = true) ∨
      ∃ range ∈ comments, range.1 ≤ i ∧ i < range.2 := by
  induction tiling with
  | last gap => exact Or.inr (gap.covered after before)
  | @token a next toks first rest gap covers bound _ _ ih =>
    by_cases inGap : i < next.start
    · rcases gap.covered after inGap with white | ⟨range, member, within⟩
      · exact Or.inr (Or.inl white)
      · exact Or.inr (Or.inr ⟨range, List.mem_append_left _ member, within⟩)
    · by_cases inToken : i < next.stop
      · exact Or.inl ⟨next, List.mem_cons_self, by omega, inToken⟩
      · rcases ih (by omega) with ⟨tok, member, within⟩ | white | ⟨range, member, within⟩
        · exact Or.inl ⟨tok, List.mem_cons_of_mem _ member, within⟩
        · exact Or.inr (Or.inl white)
        · exact Or.inr (Or.inr ⟨range, List.mem_append_right _ member, within⟩)

theorem Tiling.start_le (tiling : Tiling src a toks comments) : ∀ tok ∈ toks, a ≤ tok.start := by
  induction tiling with
  | last => intro tok member; cases member
  | token gap covers _ _ _ ih =>
    intro tok member
    have start := gap.le
    rcases List.mem_cons.mp member with rfl | rest
    · exact start
    · have later := ih tok rest
      omega

theorem Tiling.comment_apart (tiling : Tiling src a toks comments) :
    ∀ range ∈ comments, a ≤ range.1 ∧ IsComment src range.1 range.2 ∧
      ∀ tok ∈ toks, tok.stop ≤ range.1 ∨ range.2 ≤ tok.start := by
  induction tiling with
  | last gap =>
    intro range member
    obtain ⟨comment, after, _⟩ := gap.isComment range member
    exact ⟨after, comment, nofun⟩
  | @token a next toks first rest gap covers _ _ tiling ih =>
    intro range member
    have start := gap.le
    rcases List.mem_append.mp member with here | later
    · obtain ⟨comment, after, before⟩ := gap.isComment range here
      refine ⟨after, comment, fun tok covered => Or.inr ?_⟩
      rcases List.mem_cons.mp covered with rfl | further
      · exact before
      · have beyond := tiling.start_le tok further
        omega
    · obtain ⟨after, comment, apart⟩ := ih range later
      refine ⟨by omega, comment, fun tok covered => ?_⟩
      rcases List.mem_cons.mp covered with rfl | further
      · exact Or.inl after
      · exact apart tok further

end Layout

/-- The token list splits the source into tokens and gaps. The only tokens without bytes are the
semicolons that `layOut` inserts and the end marker; the two that may stand at the end of input
share their position. -/
structure FaithfulPartition (src : List UInt8) (toks : List Token) (comments : List (Nat × Nat)) : Prop where
  bounds : ∀ tok ∈ toks, tok.start ≤ tok.stop ∧ tok.stop ≤ src.length
  increasing : toks.Pairwise fun a b => a.stop ≤ b.start ∧
    (a.start < b.start ∨ a = ⟨.SEMICOLON, src.length, src.length⟩ ∧ b = ⟨.EOF, src.length, src.length⟩)
  skipped : ∀ range ∈ comments, IsComment src range.1 range.2 ∧
    ∀ tok ∈ toks, tok.start < tok.stop → tok.stop ≤ range.1 ∨ range.2 ≤ tok.start
  covered : ∀ i < src.length, (∃ tok ∈ toks, tok.start ≤ i ∧ i < tok.stop) ∨
    (∃ c, src[i]? = some c ∧ isWhitespace c = true) ∨ ∃ range ∈ comments, range.1 ≤ i ∧ i < range.2
  semicolons : toks = layOut src .INVALID 0 (toks.filter fun tok => tok.start < tok.stop)
  ends : ∃ before, toks = before ++ [⟨.EOF, src.length, src.length⟩] ∧ ∀ tok ∈ before, tok.kind ≠ .EOF

theorem lexRun_faithful {src : List UInt8} {lexed : Lexed} (scan : lexRun src = .ok lexed) :
    FaithfulPartition src lexed.tokens lexed.comments := by
  obtain ⟨covering, tiling, tokens⟩ := lexLoop_spec scan (by rw [List.drop_zero]) (Nat.zero_le _) rfl
  have filtered : lexed.tokens.filter (fun tok => tok.start < tok.stop) = covering := by
    rw [tokens]
    exact tiling.filter_layOut _
  have member {tok : Token} (covered : tok ∈ covering) : tok ∈ lexed.tokens := by
    rw [← filtered] at covered
    exact (List.mem_filter.mp covered).1
  refine ⟨?_, ?_, ?_, ?_, ?_, ?_⟩
  · intro tok inside
    rw [tokens] at inside
    exact (tiling.layOut_bounds _ tok inside).2
  · rw [tokens]
    exact tiling.layOut_increasing _
  · intro range inside
    obtain ⟨_, comment, apart⟩ := tiling.comment_apart range inside
    refine ⟨comment, fun tok inside covers => apart tok ?_⟩
    rw [← filtered]
    exact List.mem_filter.mpr ⟨inside, by simpa using covers⟩
  · intro i bound
    rcases tiling.covered (Nat.zero_le i) bound with ⟨tok, inside, within⟩ | rest
    · exact Or.inl ⟨tok, member inside, within⟩
    · exact Or.inr rest
  · rw [filtered]
    exact tokens
  · rw [tokens]
    exact tiling.layOut_ends _

theorem lex_faithful {src : List UInt8} {toks : List Token} (run : lex src = .ok toks) :
    ∃ comments, lexRun src = .ok ⟨toks, comments⟩ ∧ FaithfulPartition src toks comments := by
  obtain ⟨lexed, scan, rfl⟩ := map_ok run
  exact ⟨lexed.comments, scan, lexRun_faithful scan⟩

theorem lex_faithful_comment : ∃ comments,
    lexRun (bytesOf "x /*\n*/ y") = .ok ⟨[⟨.IDENT, 0, 1⟩, ⟨.SEMICOLON, 4, 4⟩, ⟨.IDENT, 8, 9⟩, ⟨.SEMICOLON, 9, 9⟩,
      ⟨.EOF, 9, 9⟩], comments⟩ ∧ FaithfulPartition (bytesOf "x /*\n*/ y") [⟨.IDENT, 0, 1⟩, ⟨.SEMICOLON, 4, 4⟩,
        ⟨.IDENT, 8, 9⟩, ⟨.SEMICOLON, 9, 9⟩, ⟨.EOF, 9, 9⟩] comments :=
  lex_faithful (by decide +kernel)

end HopHop
