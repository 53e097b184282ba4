import HopHop.LexerPartition
import HopHop.LiteralClose

namespace HopHop

/-! The comment ranges the formatter collects. This scan knows strings and comments but no runes. -/

/-- A comment range, and the text behind it. -/
structure FoundComment where
  start : Nat
  stop : Nat
  rest : List UInt8
  deriving DecidableEq, Repr

/-- The next comment range from `pos` on. Literals are skipped as a whole; one that is not closed
takes the rest of the source, and so does an unclosed block comment. -/
def nextCommentRange (rest : List UInt8) (pos : Nat) : Option FoundComment :=
  match rest with
  | [] => none
  | c :: tail =>
    if c = Byte.doubleQuote then
      let n := (quotedLen c tail).getD tail.length
      nextCommentRange (tail.drop n) (pos + 1 + n)
    else if c = Byte.backquote then
      let n := rawLen tail
      nextCommentRange (tail.drop n) (pos + 1 + n)
    else if c = Byte.slash ∧ tail.head? = some Byte.slash then
      let n := spanLen isNotNewline tail.tail
      some ⟨pos, pos + 2 + n, tail.tail.drop n⟩
    else if c = Byte.slash ∧ tail.head? = some Byte.star then
      match skipBlockComment tail.tail (pos + 2) 1 none with
      | .ok (rest', pos', _) => some ⟨pos, pos', rest'⟩
      | .error stop => some ⟨pos, stop, []⟩
    else nextCommentRange tail (pos + 1)
termination_by rest.length
decreasing_by all_goals simp only [List.length_cons, List.length_drop]; omega

theorem nextCommentRange_shorter {rest : List UInt8} {pos : Nat} {found : FoundComment}
    (run : nextCommentRange rest pos = some found) : found.rest.length < rest.length := by
  fun_induction nextCommentRange rest pos with
  | case1 => cases run
  | case2 pos tail n ih =>
    have shorter := ih run
    rw [List.length_drop] at shorter
    rw [List.length_cons]
    omega
  | case3 pos tail quote n ih =>
    have shorter := ih run
    rw [List.length_drop] at shorter
    rw [List.length_cons]
    omega
  | case4 =>
    cases run
    simp only [List.length_drop, List.length_tail, List.length_cons]
    omega
  | case5 pos c tail quote raw line block rest' pos' newline' comment =>
    cases run
    have shorter := (skipBlockComment_length comment).2
    simp only [List.length_tail] at shorter
    simp only [List.length_cons]
    omega
  | case6 =>
    cases run
    exact Nat.succ_pos _
  | case7 pos c tail quote raw line block ih => exact Nat.lt_succ_of_lt (ih run)

/-- All comment ranges from `pos` on, in the order the formatter collects them. -/
def commentRanges (rest : List UInt8) (pos : Nat) : List (Nat × Nat) :=
  match _found : nextCommentRange rest pos with
  | none => []
  | some comment => (comment.start, comment.stop) :: commentRanges comment.rest comment.stop
termination_by rest.length
decreasing_by exact nextCommentRange_shorter _found

theorem commentRanges_none {rest : List UInt8} {pos : Nat} (none : nextCommentRange rest pos = none) :
    commentRanges rest pos = [] := by
  rw [commentRanges]
  split
  next => rfl
  next found =>
    rw [none] at found
    cases found

theorem commentRanges_some {rest : List UInt8} {pos : Nat} {comment : FoundComment}
    (some : nextCommentRange rest pos = some comment) :
    commentRanges rest pos = (comment.start, comment.stop) :: commentRanges comment.rest comment.stop := by
  rw [commentRanges]
  split
  next found =>
    rw [some] at found
    cases found
  next found =>
    rw [some] at found
    cases found
    rfl

theorem commentRanges_congr {rest rest' : List UInt8} {pos pos' : Nat}
    (same : nextCommentRange rest pos = nextCommentRange rest' pos') :
    commentRanges rest pos = commentRanges rest' pos' := by
  cases found : nextCommentRange rest pos with
  | none => rw [commentRanges_none found, commentRanges_none (same.symm.trans found)]
  | some comment => rw [commentRanges_some found, commentRanges_some (same.symm.trans found)]

/-- A byte the comment scan passes over without looking at more than the byte behind it. -/
def Passes (c : UInt8) (tail : List UInt8) : Prop :=
  c ≠ Byte.doubleQuote ∧ c ≠ Byte.backquote ∧
    ¬ (c = Byte.slash ∧ (tail.head? = some Byte.slash ∨ tail.head? = some Byte.star))

theorem nextCommentRange_pass {c : UInt8} {tail : List UInt8} (passes : Passes c tail) (pos : Nat) :
    nextCommentRange (c :: tail) pos = nextCommentRange tail (pos + 1) := by
  obtain ⟨quote, raw, single⟩ := passes
  rw [nextCommentRange, if_neg quote, if_neg raw, if_neg (fun line => single ⟨line.1, Or.inl line.2⟩),
    if_neg (fun block => single ⟨block.1, Or.inr block.2⟩)]

/-- Passing over `n` bytes one by one. -/
theorem nextCommentRange_passes {rest : List UInt8} {n : Nat} (pos : Nat) (inside : n ≤ rest.length)
    (passes : ∀ i < n, ∀ c tail, rest.drop i = c :: tail → Passes c tail) :
    nextCommentRange rest pos = nextCommentRange (rest.drop n) (pos + n) := by
  induction n generalizing rest pos with
  | zero => rfl
  | succ n ih =>
    cases rest with
    | nil => simp at inside
    | cons c tail =>
      rw [nextCommentRange_pass (passes 0 (Nat.succ_pos n) c tail rfl), List.drop_succ_cons,
        ih (pos + 1) (Nat.le_of_succ_le_succ inside) (fun i below d more text => passes (i + 1) (by omega) d more text),
        show pos + 1 + n = pos + (n + 1) by omega]

/-- A byte that can neither open a literal nor a comment. -/
def isPlain (c : UInt8) : Bool :=
  c ≠ Byte.doubleQuote && c ≠ Byte.backquote && c ≠ Byte.slash

theorem passes_of_plain {c : UInt8} (plain : isPlain c = true) (tail : List UInt8) : Passes c tail := by
  simp only [isPlain, Bool.and_eq_true, decide_eq_true_eq] at plain
  exact ⟨plain.1.1, plain.1.2, fun slash => plain.2 slash.1⟩

/-- The first `n` bytes of a text are plain. -/
def PlainUpTo (n : Nat) (text : List UInt8) : Prop :=
  ∀ i < n, ∀ c, text[i]? = some c → isPlain c = true

theorem PlainUpTo.zero (text : List UInt8) : PlainUpTo 0 text :=
  fun i below => absurd below (Nat.not_lt_zero i)

theorem PlainUpTo.add {m n : Nat} {text : List UInt8} (first : PlainUpTo m text) (second : PlainUpTo n (text.drop m)) :
    PlainUpTo (m + n) text := by
  intro i below c here
  by_cases early : i < m
  · exact first i early c here
  · refine second (i - m) (by omega) c ?_
    rw [List.getElem?_drop, show m + (i - m) = i by omega]
    exact here

theorem plainUpTo_span {p : UInt8 → Bool} (plain : ∀ c, p c = true → isPlain c = true) (text : List UInt8) :
    PlainUpTo (spanLen p text) text := by
  intro i below c here
  obtain ⟨d, there, holds⟩ := (spanLen_spec p text).1 i below
  cases here.symm.trans there
  exact plain c holds

theorem plainUpTo_head {c : UInt8} {text : List UInt8} (head : text.head? = some c) (plain : isPlain c = true) :
    PlainUpTo 1 text := by
  intro i below d here
  obtain rfl : i = 0 := by omega
  rw [List.head?_eq_getElem?] at head
  cases head.symm.trans here
  exact plain

theorem nextCommentRange_plain {c : UInt8} {tail : List UInt8} {n : Nat} (pos : Nat) (passes : Passes c tail)
    (plain : PlainUpTo n tail) (inside : n ≤ tail.length) :
    nextCommentRange (c :: tail) pos = nextCommentRange (tail.drop n) (pos + 1 + n) := by
  rw [nextCommentRange_pass passes]
  refine nextCommentRange_passes (pos + 1) inside fun i below d more text => passes_of_plain ?_ more
  refine plain i below d ?_
  rw [← List.head?_drop, text]
  rfl

theorem isPlain_of {p : UInt8 → Bool}
    (excluded : p Byte.doubleQuote = false ∧ p Byte.backquote = false ∧ p Byte.slash = false) (c : UInt8)
    (holds : p c = true) : isPlain c = true := by
  obtain ⟨quote, raw, slash⟩ := excluded
  simp only [isPlain, Bool.and_eq_true, decide_eq_true_eq]
  refine ⟨⟨?_, ?_⟩, ?_⟩
  · rintro rfl
    rw [quote] at holds
    cases holds
  · rintro rfl
    rw [raw] at holds
    cases holds
  · rintro rfl
    rw [slash] at holds
    cases holds

/-! The bytes of each kind of token. -/

theorem fraction_plain (text : List UInt8) : PlainUpTo (fractionLen text) text := by
  unfold fractionLen
  split
  next dot =>
    obtain ⟨tail, rfl⟩ := exists_tail dot
    exact (plainUpTo_head rfl (by decide)).add (plainUpTo_span (isPlain_of (by decide)) tail)
  next => exact .zero text

theorem exponent_plain {text : List UInt8} {n : Nat} (run : exponentLen text = .ok n) : PlainUpTo n text := by
  unfold exponentLen at run
  split at run
  next mark =>
    have marked : PlainUpTo 1 text := by
      simp only [isExponentMark, Bool.or_eq_true, decide_eq_true_eq] at mark
      rcases mark with lower | upper
      · exact plainUpTo_head lower (by decide)
      · exact plainUpTo_head upper (by decide)
    have signed : PlainUpTo (if isSign text.tail.head? then 1 else 0) (text.drop 1) := by
      rw [List.drop_one]
      split
      next sign =>
        simp only [isSign, Bool.or_eq_true, decide_eq_true_eq] at sign
        rcases sign with plus | minus
        · exact plainUpTo_head plus (by decide)
        · exact plainUpTo_head minus (by decide)
      next => exact .zero _
    have front := marked.add signed
    generalize (if isSign text.tail.head? then 1 else 0) = more at run front
    by_cases empty : spanLen isDigit (text.drop (1 + more)) = 0
    · simp only [empty, if_true] at run
      cases run
    · simp only [if_neg empty] at run
      cases run
      exact front.add (plainUpTo_span (isPlain_of (by decide)) _)
  next =>
    cases run
    exact .zero text

theorem number_plain {start : Nat} {c : UInt8} {tail : List UInt8} {s : Scanned}
    (run : scanNumber start c tail = .ok s) : PlainUpTo s.more tail := by
  unfold scanNumber at run
  split at run
  next hex =>
    simp only at run
    split at run
    next => cases run
    next =>
      cases run
      obtain ⟨_, mark⟩ := hex
      have marked : PlainUpTo 1 tail := by
        simp only [isHexMark, Bool.or_eq_true, decide_eq_true_eq] at mark
        rcases mark with lower | upper
        · exact plainUpTo_head lower (by decide)
        · exact plainUpTo_head upper (by decide)
      refine marked.add ?_
      rw [List.drop_one]
      exact plainUpTo_span (isPlain_of (by decide)) tail.tail
  next =>
    simp only at run
    split at run
    next => cases run
    next exponent ends =>
      cases run
      have front := (plainUpTo_span (isPlain_of (by decide)) tail).add (fraction_plain (tail.drop (spanLen isDigit tail)))
      exact front.add (exponent_plain ends)

theorem withAssign_plain (plain assign : TokenKind) (tail : List UInt8) :
    PlainUpTo (withAssign plain assign tail).more tail := by
  unfold withAssign
  split
  next follows => exact plainUpTo_head follows (by decide)
  next => exact .zero tail

theorem withDouble_plain {c : UInt8} (visible : isPlain c = true) (plain double assign : TokenKind) (tail : List UInt8) :
    PlainUpTo (withDouble c plain double assign tail).more tail := by
  unfold withDouble
  split
  next follows => exact plainUpTo_head follows visible
  next => exact withAssign_plain plain assign tail

theorem withShift_plain {c : UInt8} (visible : isPlain c = true) (plain assign shift shiftAssign : TokenKind)
    (tail : List UInt8) : PlainUpTo (withShift c plain assign shift shiftAssign tail).more tail := by
  unfold withShift
  split
  next follows =>
    split
    next follows' =>
      refine (plainUpTo_head follows visible).add (plainUpTo_head ?_ (show isPlain Byte.equals = true by decide))
      rwa [List.drop_one]
    next => exact plainUpTo_head follows visible
  next => exact withAssign_plain plain assign tail

theorem punct_plain {start : Nat} {c : UInt8} {tail : List UInt8} :
    ∀ s, scanPunct start c tail = .ok s → PlainUpTo s.more tail := by
  have single {kind : TokenKind} : PlainUpTo (Scanned.mk kind 0).more tail := .zero tail
  unfold scanPunct
  iterate 7 refine ok_or_else (fun _ => ok_of single) ?_
  refine ok_or_else (fun _ => ok_or_else (fun dots => ok_of ?_) (ok_of single)) ?_
  · refine (plainUpTo_head dots.1 (by decide)).add (plainUpTo_head ?_ (show isPlain Byte.dot = true by decide))
    rw [List.drop_one]
    exact dots.2
  refine ok_or_else (fun _ => ok_of single) ?_
  refine ok_or_else (fun _ => ok_of (withAssign_plain _ _ tail)) ?_
  refine ok_or_else (fun _ => ok_of single) ?_
  iterate 5 refine ok_or_else (fun _ => ok_of (withAssign_plain _ _ tail)) ?_
  iterate 2 refine ok_or_else (fun here => ok_of (withDouble_plain (by rw [here]; decide) _ _ _ tail)) ?_
  refine ok_or_else (fun _ => ok_of (withAssign_plain _ _ tail)) ?_
  refine ok_or_else (fun _ => ok_of single) ?_
  iterate 2 refine ok_or_else (fun _ => ok_of (withAssign_plain _ _ tail)) ?_
  iterate 2 refine ok_or_else (fun here => ok_of (withShift_plain (by rw [here]; decide) _ _ _ _ tail)) ?_
  exact nofun

end HopHop
