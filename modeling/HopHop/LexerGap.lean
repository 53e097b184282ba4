import HopHop.Lexer
import Mathlib.Data.List.Range

namespace HopHop

/-! The gaps between tokens, described on positions of the source and without the scanner. -/

def isWhitespace (c : UInt8) : Bool :=
  isBlank c || c = Byte.newline

/-- From `a`, inside `depth` open block comments, the outermost of them is closed at `b`. -/
inductive BlockBody (src : List UInt8) : Nat → Nat → Nat → Prop
  | closed {b} : BlockBody src 0 b b
  | opener {depth a b} : src[a]? = some Byte.slash → src[a + 1]? = some Byte.star →
      BlockBody src (depth + 2) (a + 2) b → BlockBody src (depth + 1) a b
  | closer {depth a b} : src[a]? = some Byte.star → src[a + 1]? = some Byte.slash →
      BlockBody src depth (a + 2) b → BlockBody src (depth + 1) a b
  | byte {depth a b c} : src[a]? = some c → ¬ (c = Byte.slash ∧ src[a + 1]? = some Byte.star) →
      ¬ (c = Byte.star ∧ src[a + 1]? = some Byte.slash) → BlockBody src (depth + 1) (a + 1) b →
      BlockBody src (depth + 1) a b

/-- The bytes `[a, b)` are one comment: a line comment up to the next newline or the end of
input, or a block comment with properly nested block comments inside. -/
inductive IsComment (src : List UInt8) : Nat → Nat → Prop
  | line {a b} : src[a]? = some Byte.slash → src[a + 1]? = some Byte.slash → a + 2 ≤ b → b ≤ src.length →
      (∀ i, a + 2 ≤ i → i < b → src[i]? ≠ some Byte.newline) →
      (b < src.length → src[b]? = some Byte.newline) → IsComment src a b
  | block {a b} : src[a]? = some Byte.slash → src[a + 1]? = some Byte.star → BlockBody src 1 (a + 2) b →
      IsComment src a b

/-- The bytes `[a, b)` are whitespace and the given comments. -/
inductive Gap (src : List UInt8) : Nat → Nat → List (Nat × Nat) → Prop
  | empty {a} : Gap src a a []
  | white {a b c comments} : src[a]? = some c → isWhitespace c = true → Gap src (a + 1) b comments →
      Gap src a b comments
  | comment {a m b comments} : IsComment src a m → Gap src m b comments → Gap src a b ((a, m) :: comments)

def firstNewline (src : List UInt8) (a b : Nat) : Option Nat :=
  (List.range' a (b - a)).find? fun i => src[i]? == some Byte.newline

theorem BlockBody.bounds {src : List UInt8} {depth a b : Nat} (body : BlockBody src depth a b) (inside : 0 < depth) :
    a < b ∧ b ≤ src.length := by
  induction body with
  | closed => omega
  | opener _ _ _ ih =>
    have inner := ih (by omega)
    omega
  | @closer depth a b _ close body ih =>
    have bound : a + 1 < src.length := (List.getElem?_eq_some_iff.mp close).1
    cases depth with
    | zero =>
      cases body
      omega
    | succ depth =>
      have inner := ih (by omega)
      omega
  | byte _ _ _ _ ih =>
    have inner := ih (by omega)
    omega

theorem IsComment.bounds {src : List UInt8} {a b : Nat} (comment : IsComment src a b) :
    a + 2 ≤ b ∧ b ≤ src.length := by
  cases comment with
  | line _ _ long bound => exact ⟨long, bound⟩
  | block _ _ body =>
    have inside := body.bounds (by omega)
    omega

theorem Gap.le {src : List UInt8} {a b : Nat} {comments : List (Nat × Nat)} (gap : Gap src a b comments) : a ≤ b := by
  induction gap with
  | empty => exact Nat.le_refl _
  | white _ _ _ ih => omega
  | comment comment _ ih =>
    have long := comment.bounds
    omega

theorem Gap.append {src : List UInt8} {a m b : Nat} {first second : List (Nat × Nat)} (left : Gap src a m first)
    (right : Gap src m b second) : Gap src a b (first ++ second) := by
  induction left with
  | empty => exact right
  | white here white _ ih => exact .white here white (ih right)
  | comment comment _ ih => exact .comment comment (ih right)

theorem Gap.isComment {src : List UInt8} {a b : Nat} {comments : List (Nat × Nat)} (gap : Gap src a b comments) :
    ∀ range ∈ comments, IsComment src range.1 range.2 ∧ a ≤ range.1 ∧ range.2 ≤ b := by
  induction gap with
  | empty => intro range member; cases member
  | white _ _ _ ih =>
    intro range member
    obtain ⟨comment, after, before⟩ := ih range member
    exact ⟨comment, by omega, before⟩
  | comment comment rest ih =>
    intro range member
    rcases List.mem_cons.mp member with rfl | later
    · exact ⟨comment, Nat.le_refl _, rest.le⟩
    · obtain ⟨comment', after, before⟩ := ih range later
      have long := comment.bounds
      exact ⟨comment', by omega, before⟩

/-- Every byte of a gap is whitespace or inside one of its comments. -/
theorem Gap.covered {src : List UInt8} {a b : Nat} {comments : List (Nat × Nat)} (gap : Gap src a b comments)
    {i : Nat} (after : a ≤ i) (before : i < b) :
    (∃ c, src[i]? = some c ∧ isWhitespace c = true) ∨ ∃ range ∈ comments, range.1 ≤ i ∧ i < range.2 := by
  induction gap with
  | empty => omega
  | @white a b c comments here white _ ih =>
    by_cases first : i = a
    · subst first
      exact Or.inl ⟨c, here, white⟩
    · exact ih (by omega) before
  | @comment a m b comments comment _ ih =>
    by_cases inside : i < m
    · exact Or.inr ⟨(a, m), List.mem_cons_self, after, inside⟩
    · rcases ih (by omega) before with white | ⟨range, member, within⟩
      · exact Or.inl white
      · exact Or.inr ⟨range, List.mem_cons_of_mem _ member, within⟩

theorem firstNewline_self (src : List UInt8) (a : Nat) : firstNewline src a a = none := by
  simp [firstNewline]

theorem firstNewline_append (src : List UInt8) {a m b : Nat} (left : a ≤ m) (right : m ≤ b) :
    firstNewline src a b = (firstNewline src a m).or (firstNewline src m b) := by
  have split : List.range' a (b - a) = List.range' a (m - a) ++ List.range' m (b - m) := by
    have joined := List.range'_append_1 (s := a) (m := m - a) (n := b - m)
    rw [show a + (m - a) = m by omega, show m - a + (b - m) = b - a by omega] at joined
    exact joined.symm
  rw [firstNewline, split, List.find?_append]
  rfl

theorem firstNewline_step (src : List UInt8) (a : Nat) :
    firstNewline src a (a + 1) = if src[a]? = some Byte.newline then some a else none := by
  simp only [firstNewline, Nat.add_sub_cancel_left, List.range'_one, List.find?_cons, List.find?_nil]
  by_cases newline : src[a]? = some Byte.newline
  · simp only [newline, beq_self_eq_true, if_true]
  · simp only [beq_eq_false_iff_ne.mpr newline, if_neg newline]

theorem firstNewline_eq_some {src : List UInt8} {a b p : Nat} (found : firstNewline src a b = some p) :
    a ≤ p ∧ p < b ∧ src[p]? = some Byte.newline ∧ ∀ i, a ≤ i → i < p → src[i]? ≠ some Byte.newline := by
  obtain ⟨newline, before, after, split, earlier⟩ := List.find?_eq_some_iff_append.mp found
  have member : p ∈ List.range' a (b - a) := by
    rw [split]
    simp
  have within := List.mem_range'_1.mp member
  refine ⟨within.1, by omega, by simpa using newline, fun i low high => ?_⟩
  have inRange : i ∈ List.range' a (b - a) := List.mem_range'_1.mpr ⟨low, by omega⟩
  have sorted : (List.range' a (b - a)).Pairwise (· < ·) := List.pairwise_lt_range'
  rw [split] at inRange sorted
  rcases List.mem_append.mp inRange with old | new
  · simpa using earlier i old
  · have ordered := (List.pairwise_append.mp sorted).2.1
    rcases List.mem_cons.mp new with rfl | later
    · omega
    · have above := (List.pairwise_cons.mp ordered).1 i later
      omega

theorem firstNewline_eq_none {src : List UInt8} {a b : Nat} :
    firstNewline src a b = none ↔ ∀ i, a ≤ i → i < b → src[i]? ≠ some Byte.newline := by
  simp only [firstNewline, List.find?_eq_none, List.mem_range'_1, beq_iff_eq]
  constructor
  · intro none i low high
    exact none i ⟨low, by omega⟩
  · intro none i within
    exact none i within.1 (by omega)

/-! The scanner walks a suffix of the source. -/

theorem drop_eq_cons {src rest : List UInt8} {pos : Nat} {c : UInt8} (suffix : c :: rest = src.drop pos) :
    src[pos]? = some c ∧ rest = src.drop (pos + 1) ∧ pos < src.length ∧ rest.head? = src[pos + 1]? := by
  have here : src[pos]? = some c := by
    have first := congrArg List.head? suffix
    simpa [List.head?_drop] using first.symm
  have next : rest = src.drop (pos + 1) := by
    have cut := congrArg List.tail suffix
    simpa [List.tail_drop] using cut
  refine ⟨here, next, (List.getElem?_eq_some_iff.mp here).1, ?_⟩
  rw [next, List.head?_drop]

theorem scan_bound {src tail : List UInt8} {start : Nat} {c : UInt8} (suffix : c :: tail = src.drop start) {n : Nat}
    (inside : n ≤ tail.length) : start + 1 + n ≤ src.length := by
  have length := congrArg List.length suffix
  rw [List.length_drop, List.length_cons] at length
  omega

theorem noteNewline_eq {src : List UInt8} {c : UInt8} {pos : Nat} {newline : Option Nat}
    (here : src[pos]? = some c) : noteNewline c pos newline = newline.or (firstNewline src pos (pos + 1)) := by
  rw [firstNewline_step, here]
  unfold noteNewline
  cases newline <;> simp

theorem noteNewline_other {c : UInt8} {pos : Nat} {newline : Option Nat} (other : c ≠ Byte.newline) :
    noteNewline c pos newline = newline := by
  simp [noteNewline, other]

theorem firstNewline_two {src : List UInt8} {a : Nat} {c d : UInt8} (first : src[a]? = some c)
    (second : src[a + 1]? = some d) (plain : c ≠ Byte.newline ∧ d ≠ Byte.newline) :
    firstNewline src a (a + 2) = none := by
  rw [firstNewline_append src (Nat.le_succ a) (Nat.le_succ (a + 1)), firstNewline_step, firstNewline_step,
    first, second, if_neg (by simpa using plain.1), if_neg (by simpa using plain.2)]
  rfl

theorem skipBlockComment_spec {src rest rest' : List UInt8} {pos depth pos' : Nat} {newline newline' : Option Nat}
    (run : skipBlockComment rest pos depth newline = .ok (rest', pos', newline')) (suffix : rest = src.drop pos)
    (inside : 0 < depth) :
    BlockBody src depth pos pos' ∧ rest' = src.drop pos' ∧ newline' = newline.or (firstNewline src pos pos') := by
  fun_induction skipBlockComment rest pos depth newline with
  | case1 => cases run
  | case2 pos depth newline c rest opens ih =>
    obtain ⟨here, next, _, follows⟩ := drop_eq_cons suffix
    obtain ⟨rfl, star⟩ := opens
    rw [follows] at star
    obtain ⟨body, final, found⟩ := ih run (by rw [next, List.tail_drop]) (by omega)
    obtain ⟨outer, rfl⟩ : ∃ outer, depth = outer + 1 := ⟨depth - 1, by omega⟩
    have bounds := body.bounds (by omega)
    refine ⟨.opener here star body, final, ?_⟩
    rw [found, noteNewline_other (by decide), firstNewline_append src (show pos ≤ pos + 2 by omega) (by omega),
      firstNewline_two here star (by decide)]
    rfl
  | case3 pos newline c rest opens closes =>
    obtain ⟨here, next, _, follows⟩ := drop_eq_cons suffix
    obtain ⟨rfl, slash⟩ := closes
    rw [follows] at slash
    cases run
    refine ⟨.closer here slash .closed, by rw [next, List.tail_drop], ?_⟩
    rw [noteNewline_other (by decide), firstNewline_two here slash (by decide), Option.or_none]
  | case4 pos depth newline c rest opens closes inner ih =>
    obtain ⟨here, next, _, follows⟩ := drop_eq_cons suffix
    obtain ⟨rfl, slash⟩ := closes
    rw [follows] at slash
    obtain ⟨body, final, found⟩ := ih run (by rw [next, List.tail_drop]) (by omega)
    obtain ⟨outer, rfl⟩ : ∃ outer, depth = outer + 1 := ⟨depth - 1, by omega⟩
    have bounds := body.bounds (by omega)
    refine ⟨.closer here slash body, final, ?_⟩
    rw [found, noteNewline_other (by decide), firstNewline_append src (show pos ≤ pos + 2 by omega) (by omega),
      firstNewline_two here slash (by decide)]
    rfl
  | case5 pos depth newline c rest opens closes ih =>
    obtain ⟨here, next, _, follows⟩ := drop_eq_cons suffix
    rw [follows] at opens closes
    obtain ⟨body, final, found⟩ := ih run next inside
    obtain ⟨outer, rfl⟩ : ∃ outer, depth = outer + 1 := ⟨depth - 1, by omega⟩
    have bounds := body.bounds (by omega)
    refine ⟨.byte here opens closes body, final, ?_⟩
    rw [found, noteNewline_eq here, firstNewline_append src (show pos ≤ pos + 1 by omega) (show pos + 1 ≤ pos' by omega),
      Option.or_assoc]

theorem spanLen_spec (p : UInt8 → Bool) (rest : List UInt8) :
    (∀ i < spanLen p rest, ∃ c, rest[i]? = some c ∧ p c = true) ∧
      (∀ c, rest[spanLen p rest]? = some c → p c = false) := by
  induction rest with
  | nil => simp [spanLen]
  | cons c rest ih =>
    unfold spanLen
    split
    next holds =>
      refine ⟨fun i within => ?_, fun d stop => ih.2 d (by simpa using stop)⟩
      cases i with
      | zero => exact ⟨c, rfl, holds⟩
      | succ i => exact ih.1 i (by omega)
    next fails =>
      refine ⟨fun i within => absurd within (Nat.not_lt_zero i), fun d stop => ?_⟩
      cases stop
      simpa using fails

/-- The text of a line comment, from the bytes after its two slashes. -/
theorem isComment_line {src tail : List UInt8} {pos : Nat} (suffix : tail = src.drop (pos + 1))
    (first : src[pos]? = some Byte.slash) (second : tail.head? = some Byte.slash) :
    IsComment src pos (pos + 2 + spanLen isNotNewline tail.tail) := by
  obtain ⟨inside, outside⟩ := spanLen_spec isNotNewline tail.tail
  have length := spanLen_le_length isNotNewline tail.tail
  have text : tail.tail = src.drop (pos + 2) := by rw [suffix, List.tail_drop]
  have slash : src[pos + 1]? = some Byte.slash := by rwa [suffix, List.head?_drop] at second
  have bound : pos + 1 < src.length := (List.getElem?_eq_some_iff.mp slash).1
  rw [text, List.length_drop] at length
  rw [text] at inside outside ⊢
  refine .line first slash (by omega) (by omega) (fun i low high => ?_) (fun more => ?_)
  · obtain ⟨c, here, other⟩ := inside (i - (pos + 2)) (by omega)
    rw [List.getElem?_drop, show pos + 2 + (i - (pos + 2)) = i by omega] at here
    rw [here]
    intro newline
    cases newline
    simp [isNotNewline] at other
  · obtain ⟨c, here⟩ : ∃ c, src[pos + 2 + spanLen isNotNewline (src.drop (pos + 2))]? = some c :=
      ⟨_, List.getElem?_eq_getElem more⟩
    have stop := outside c (by rw [List.getElem?_drop]; exact here)
    rw [here]
    simpa [isNotNewline] using stop

/-- The unread bytes after a gap do not go on with it. -/
def StartsToken (rest : List UInt8) : Prop :=
  ∀ c tail, rest = c :: tail → isWhitespace c = false ∧
    ¬ (c = Byte.slash ∧ (tail.head? = some Byte.slash ∨ tail.head? = some Byte.star))

theorem startsToken_nil : StartsToken [] := by
  intro c tail same
  cases same

/-- Skipping trivia passes over a gap of the source, as far as it goes, and notes its first newline. -/
theorem skipTrivia_spec {src rest : List UInt8} {pos : Nat} {newline : Option Nat} {t : Trivia}
    (run : skipTrivia rest pos newline = .ok t) (suffix : rest = src.drop pos) (bound : pos ≤ src.length) :
    Gap src pos t.pos t.comments ∧ t.rest = src.drop t.pos ∧ t.pos ≤ src.length ∧ StartsToken t.rest ∧
      t.newline = newline.or (firstNewline src pos t.pos) := by
  fun_induction skipTrivia rest pos newline generalizing t with
  | case1 pos newline =>
    cases run
    exact ⟨.empty, suffix, bound, startsToken_nil, by rw [firstNewline_self, Option.or_none]⟩
  | case2 pos newline c tail blank ih =>
    obtain ⟨here, next, inside, _⟩ := drop_eq_cons suffix
    obtain ⟨gap, final, bound', stop, found⟩ := ih run next inside
    have other : ¬ c = Byte.newline := by
      rintro rfl
      exact absurd blank (by decide)
    refine ⟨.white here (by simp [isWhitespace, blank]) gap, final, bound', stop, ?_⟩
    rw [found, firstNewline_append src (Nat.le_succ pos) gap.le, firstNewline_step, here,
      if_neg (by simpa using other)]
    rfl
  | case3 pos newline tail blank ih =>
    obtain ⟨here, next, inside, _⟩ := drop_eq_cons suffix
    obtain ⟨gap, final, bound', stop, found⟩ := ih run next inside
    refine ⟨.white here (by decide) gap, final, bound', stop, ?_⟩
    rw [found, noteNewline_eq here, firstNewline_append src (Nat.le_succ pos) gap.le, Option.or_assoc]
  | case4 => cases run
  | case5 pos newline c tail blank ends line n t' next =>
    rename_i ih
    obtain ⟨here, suffix', inside, _⟩ := drop_eq_cons suffix
    obtain ⟨rfl, slash⟩ := line
    have comment := isComment_line suffix' here slash
    have text : tail.tail.drop n = src.drop (pos + 2 + n) := by rw [suffix', List.tail_drop, List.drop_drop]
    obtain ⟨gap, final, bound', stop, found⟩ := ih next text comment.bounds.2
    cases run
    refine ⟨.comment comment gap, final, bound', stop, ?_⟩
    have skipped : firstNewline src pos (pos + 2 + n) = none := by
      cases comment with
      | line _ _ _ _ none =>
        rw [firstNewline_append src (show pos ≤ pos + 2 by omega) (by omega), firstNewline_two here
          (by rwa [suffix', List.head?_drop] at slash) (by decide), firstNewline_eq_none.mpr none]
        rfl
      | block _ star =>
        rw [suffix', List.head?_drop, star] at slash
        cases slash
    change t'.newline = _
    rw [found]
    change _ = newline.or (firstNewline src pos t'.pos)
    rw [firstNewline_append src (show pos ≤ pos + 2 + n by omega) gap.le, skipped]
    rfl
  | case6 => cases run
  | case7 => cases run
  | case8 pos newline c tail blank ends line block rest' pos' newline' comment t' next ih =>
    obtain ⟨here, suffix', inside, _⟩ := drop_eq_cons suffix
    obtain ⟨rfl, star⟩ := block
    have text : tail.tail = src.drop (pos + 2) := by rw [suffix', List.tail_drop]
    obtain ⟨body, final, found⟩ := skipBlockComment_spec comment text (by omega)
    have star' : src[pos + 1]? = some Byte.star := by rwa [suffix', List.head?_drop] at star
    have bounds := body.bounds (by omega)
    obtain ⟨gap, final', bound', stop, found'⟩ := ih next final bounds.2
    cases run
    refine ⟨.comment (.block here star' body) gap, final', bound', stop, ?_⟩
    change t'.newline = newline.or (firstNewline src pos t'.pos)
    rw [found', found, firstNewline_append src (show pos ≤ pos + 2 by omega) (by have := gap.le; omega),
      firstNewline_append src (show pos + 2 ≤ pos' by omega) gap.le,
      firstNewline_two here star' (by decide), Option.or_assoc]
    rfl
  | case9 pos newline c tail blank ends line block =>
    cases run
    refine ⟨.empty, suffix, bound, ?_, by rw [firstNewline_self, Option.or_none]⟩
    rintro _ _ ⟨rfl, rfl⟩
    refine ⟨by simp [isWhitespace, blank, ends], ?_⟩
    rintro ⟨slash, second | second⟩
    · exact line ⟨slash, second⟩
    · exact block ⟨slash, second⟩

theorem skipTrivia_idle {rest : List UInt8} (starts : StartsToken rest) (pos : Nat) (newline : Option Nat) :
    skipTrivia rest pos newline = .ok ⟨rest, pos, newline, []⟩ := by
  cases rest with
  | nil => rw [skipTrivia]
  | cons c tail =>
    obtain ⟨visible, single⟩ := starts c tail rfl
    simp only [isWhitespace, Bool.or_eq_false_iff, decide_eq_false_iff_not] at visible
    rw [skipTrivia, if_neg (by simp [visible.1]), if_neg visible.2,
      if_neg (fun line => single ⟨line.1, Or.inl line.2⟩), if_neg (fun block => single ⟨block.1, Or.inr block.2⟩)]

end HopHop
