import HopHop.Bytes
import Mathlib.Data.List.DropRight

namespace HopHop

/-! ### H2NormalizeImportPath -/

def isAsciiSpace (c : UInt8) : Bool :=
  c = Byte.space || c = Byte.tab || c = Byte.newline || c = Byte.carriageReturn || c = Byte.formFeed ||
    c = Byte.verticalTab

def isValidImportPathChar (c : UInt8) : Bool :=
  isAlnum c || c = Byte.underscore || c = Byte.dot || c = Byte.slash || c = Byte.minus

/-- The output buffer: the bytes below `outLen`, which is their number, and the indices written so far. -/
structure PathBuf where
  out : List UInt8
  written : List Nat
  deriving DecidableEq, Repr

namespace PathBuf

def outLen (buf : PathBuf) : Nat := buf.out.length

def store (buf : PathBuf) (bytes : List UInt8) : PathBuf where
  out := buf.out ++ bytes
  written := buf.written ++ List.range' buf.outLen bytes.length

/-- The terminator is written behind the path. -/
def terminate (buf : PathBuf) : PathBuf := { buf with written := buf.written ++ [buf.outLen] }

/-- Goes back over the last segment and the slash before it. -/
def popSegment (buf : PathBuf) : PathBuf :=
  { buf with out := (buf.out.rdropWhile fun c => c ≠ Byte.slash).dropLast }

end PathBuf

/-- Addition and subtraction of 32-bit numbers. -/
def addU32 (a b : Nat) : Nat := (a + b) % 2 ^ 32
def subU32 (a b : Nat) : Nat := (a + 2 ^ 32 - b) % 2 ^ 32

/-- What a step gives: the reason of its failure, if it fails, and the buffer as far as it came. -/
abbrev PathResult := Option String × PathBuf

def appendName (outCap : Nat) (segment : List UInt8) (buf : PathBuf) : PathResult :=
  if subU32 (subU32 outCap buf.outLen) 1 < segment.length then (some "output buffer too small", buf)
  else (none, buf.store segment)

def appendSegment (outCap : Nat) (segment : List UInt8) (buf : PathBuf) : PathResult :=
  if 0 < buf.outLen then
    if outCap ≤ addU32 buf.outLen 1 then (some "output buffer too small", buf)
    else appendName outCap segment (buf.store [Byte.slash])
  else appendName outCap segment buf

def normalizeSegment (outCap : Nat) (segment : List UInt8) (buf : PathBuf) : PathResult :=
  if segment = [Byte.dot] then (none, buf)
  else if segment = [Byte.dot, Byte.dot] then
    if buf.outLen = 0 then (some "escapes root", buf) else (none, buf.popSegment)
  else appendSegment outCap segment buf

/-- The loop over the segments; `rest` is the path from `segStart` on. -/
def normalizeLoop (outCap : Nat) (rest : List UInt8) (buf : PathBuf) : PathResult :=
  let segment := rest.takeWhile fun c => c ≠ Byte.slash
  if segment = [] then (some "empty segment", buf)
  else
    match normalizeSegment outCap segment buf with
    | (some reason, buf) => (some reason, buf)
    | (none, buf) =>
      match tail : rest.dropWhile fun c => c ≠ Byte.slash with
      | [] => (none, buf)
      | _ :: more => normalizeLoop outCap more buf
termination_by rest.length
decreasing_by
  have shorter := List.length_dropWhile_le (fun c => decide (c ≠ Byte.slash)) rest
  rw [tail, List.length_cons] at shorter
  omega

/-- `importPath` holds the bytes before the terminator. -/
def normalizeImportPath (importPath : List UInt8) (outCap : Nat) : PathResult :=
  let buf : PathBuf := ⟨[], []⟩
  if importPath = [] then (some "empty path", buf)
  else if outCap = 0 then (some "output buffer too small", buf)
  else if importPath.head? = some Byte.slash then (some "absolute path", buf)
  else if importPath = [Byte.dot] then (some "cannot import itself", buf)
  else if importPath = [Byte.dot, Byte.dot] then (some "cannot import parent root", buf)
  else if importPath.head?.any isAsciiSpace || importPath.getLast?.any isAsciiSpace then
    (some "leading/trailing whitespace", buf)
  else if importPath.all isValidImportPathChar = false then (some "invalid character", buf)
  else
    match normalizeLoop outCap importPath buf with
    | (some reason, buf) => (some reason, buf)
    | (none, buf) => if buf.outLen = 0 then (some "empty path", buf) else (none, buf.terminate)

/-! ### The segment stack -/

def joinSegments (stack : List (List UInt8)) : List UInt8 := [Byte.slash].intercalate stack

/-- A segment that stays on the stack. -/
structure PathName (segment : List UInt8) : Prop where
  nonempty : segment ≠ []
  chars : ∀ c ∈ segment, isValidImportPathChar c = true ∧ c ≠ Byte.slash
  notHere : segment ≠ [Byte.dot]
  notUp : segment ≠ [Byte.dot, Byte.dot]

/-- One segment of a path: `.` is dropped, `..` pops, anything else is pushed. -/
def pathStep (stack : List (List UInt8)) (segment : List UInt8) : Option (List (List UInt8)) :=
  if segment = [Byte.dot] then some stack
  else if segment = [Byte.dot, Byte.dot] then if stack = [] then none else some stack.dropLast
  else some (stack ++ [segment])

/-- The segments lead from `stack` to `final` without popping above the root, and what each of them leaves fits. -/
structure Resolves (outCap : Nat) (stack segments final : List (List UInt8)) : Prop where
  nonempty : ∀ segment ∈ segments, segment ≠ []
  walk : segments.foldlM pathStep stack = some final
  fits : ∀ k between, (segments.take k).foldlM pathStep stack = some between →
    (joinSegments between).length + 1 ≤ outCap

theorem joinSegments_concat (stack : List (List UInt8)) (segment : List UInt8) :
    joinSegments (stack ++ [segment]) =
      if stack = [] then segment else joinSegments stack ++ Byte.slash :: segment := by
  induction stack with
  | nil => rw [if_pos rfl, List.nil_append, joinSegments, List.intercalate_singleton]
  | cons first stack ih =>
    rw [if_neg (List.cons_ne_nil _ _), List.cons_append, joinSegments, List.intercalate_cons_of_ne_nil (by simp)]
    rw [joinSegments] at ih
    rw [ih]
    by_cases empty : stack = []
    · subst empty
      rw [if_pos rfl, joinSegments, List.intercalate_singleton, List.append_assoc]
      rfl
    · rw [if_neg empty, joinSegments, joinSegments, List.intercalate_cons_of_ne_nil empty]
      simp only [List.append_assoc]

theorem joinSegments_eq_nil {stack : List (List UInt8)} (names : ∀ segment ∈ stack, PathName segment) :
    joinSegments stack = [] ↔ stack = [] := by
  constructor
  · intro empty
    rcases List.eq_nil_or_concat stack with rfl | ⟨before, segment, rfl⟩
    · rfl
    · rw [List.concat_eq_append] at empty names
      rw [joinSegments_concat] at empty
      split at empty
      · exact absurd empty (names segment (List.mem_append_right _ List.mem_cons_self)).nonempty
      · cases (List.append_eq_nil_iff.mp empty).2
  · rintro rfl
    rfl

theorem rdropWhile_name {segment : List UInt8} (chars : ∀ c ∈ segment, c ≠ Byte.slash) (before : List UInt8) :
    (before ++ segment).rdropWhile (fun c => c ≠ Byte.slash) = before.rdropWhile fun c => c ≠ Byte.slash := by
  induction segment using List.reverseRecOn with
  | nil => rw [List.append_nil]
  | append_singleton segment c ih =>
    have here := chars c (List.mem_append_right _ List.mem_cons_self)
    rw [← List.append_assoc, List.rdropWhile_concat_pos _ _ _ (by simpa using here)]
    exact ih fun d member => chars d (List.mem_append_left _ member)

/-- Going back over the last segment of a joined stack pops it. -/
theorem popSegment_joinSegments {stack : List (List UInt8)} {segment : List UInt8} (name : PathName segment) :
    ((joinSegments (stack ++ [segment])).rdropWhile fun c => c ≠ Byte.slash).dropLast = joinSegments stack := by
  have chars : ∀ c ∈ segment, c ≠ Byte.slash := fun c member => (name.chars c member).2
  rw [joinSegments_concat]
  by_cases empty : stack = []
  · subst empty
    have whole := rdropWhile_name chars []
    rw [List.nil_append] at whole
    rw [if_pos rfl, whole]
    rfl
  · have split : joinSegments stack ++ Byte.slash :: segment =
        (joinSegments stack ++ [Byte.slash]) ++ segment := by simp
    rw [if_neg empty, split,
      rdropWhile_name chars, List.rdropWhile_concat_neg _ _ _ (by simp), List.dropLast_concat]

theorem subU32_exact {a b : Nat} (le : b ≤ a) (small : a < 2 ^ 32) : subU32 a b = a - b := by
  unfold subU32
  omega

/-! ### The buffer holds the stack -/

/-- The buffer holds the joined stack, with room for a terminator, and nothing was written beyond it. -/
structure PathBuf.Holds (outCap : Nat) (buf : PathBuf) (stack : List (List UInt8)) : Prop where
  out : buf.out = joinSegments stack
  names : ∀ segment ∈ stack, PathName segment
  fits : buf.outLen + 1 ≤ outCap
  written : ∀ i ∈ buf.written, i < outCap

section Steps

variable {outCap : Nat} {buf : PathBuf} {stack : List (List UInt8)} {segment : List UInt8}

theorem PathBuf.store_written (written : ∀ i ∈ buf.written, i < outCap) {bytes : List UInt8}
    (fits : buf.outLen + bytes.length ≤ outCap) : ∀ i ∈ (buf.store bytes).written, i < outCap := by
  intro i member
  rcases List.mem_append.mp member with old | new
  · exact written i old
  · have range := List.mem_range'_1.mp new
    omega

theorem PathBuf.outLen_store (bytes : List UInt8) : (buf.store bytes).outLen = buf.outLen + bytes.length :=
  List.length_append

theorem appendName_eq (small : outCap < 2 ^ 32) (room : buf.outLen + 1 ≤ outCap) :
    appendName outCap segment buf =
      if buf.outLen + segment.length + 1 ≤ outCap then (none, buf.store segment)
      else (some "output buffer too small", buf) := by
  unfold appendName
  rw [subU32_exact (by omega) small, subU32_exact (by omega) (by omega)]
  by_cases fits : buf.outLen + segment.length + 1 ≤ outCap
  · rw [if_neg (by omega), if_pos fits]
  · rw [if_pos (by omega), if_neg fits]

/-- What a step does to the stack: it moves on to a stack that fits, or it fails because there is none. -/
structure StepExact (outCap : Nat) (stack : List (List UInt8)) (segment : List UInt8)
    (result : PathResult) : Prop where
  written : ∀ i ∈ result.2.written, i < outCap
  moves : result.1 = none → ∃ next, pathStep stack segment = some next ∧ result.2.Holds outCap next
  stops : ∀ reason, result.1 = some reason →
    ∀ next, pathStep stack segment = some next → outCap < (joinSegments next).length + 1

theorem StepExact.failed {result : PathResult} {reason : String} (isReason : result.1 = some reason)
    (written : ∀ i ∈ result.2.written, i < outCap)
    (stops : ∀ next, pathStep stack segment = some next → outCap < (joinSegments next).length + 1) :
    StepExact outCap stack segment result := by
  refine ⟨written, ?_, fun _ _ => stops⟩
  intro none_
  rw [isReason] at none_
  cases none_

theorem StepExact.moved {result : PathResult} {next : List (List UInt8)} (isNone : result.1 = none)
    (step : pathStep stack segment = some next) (holds : result.2.Holds outCap next) :
    StepExact outCap stack segment result := by
  refine ⟨holds.written, fun _ => ⟨next, step, holds⟩, ?_⟩
  intro reason isReason
  rw [isNone] at isReason
  cases isReason

/-- A kept segment is appended if the joined stack still fits. -/
theorem appendSegment_exact (small : outCap < 2 ^ 32) (holds : buf.Holds outCap stack) (name : PathName segment) :
    StepExact outCap stack segment (appendSegment outCap segment buf) := by
  have step : pathStep stack segment = some (stack ++ [segment]) := by
    rw [pathStep, if_neg name.notHere, if_neg name.notUp]
  have names : ∀ other ∈ stack ++ [segment], PathName other := by
    intro other member
    rcases List.mem_append.mp member with old | new
    · exact holds.names other old
    · rw [List.mem_singleton.mp new]
      exact name
  have room := holds.fits
  have isEmpty : buf.outLen = 0 ↔ stack = [] := by
    rw [PathBuf.outLen, holds.out, List.length_eq_zero_iff, joinSegments_eq_nil holds.names]
  unfold appendSegment
  by_cases more : 0 < buf.outLen
  · have nonempty : stack ≠ [] := fun empty => by
      have := isEmpty.mpr empty
      omega
    have joined : joinSegments (stack ++ [segment]) = (buf.out ++ [Byte.slash]) ++ segment := by
      rw [joinSegments_concat, if_neg nonempty, holds.out]
      simp only [List.append_assoc, List.singleton_append]
    have length : (joinSegments (stack ++ [segment])).length = buf.outLen + 1 + segment.length := by
      rw [joined, List.length_append, List.length_append]
      rfl
    rw [if_pos more, show addU32 buf.outLen 1 = buf.outLen + 1 from Nat.mod_eq_of_lt (by omega)]
    by_cases full : outCap ≤ buf.outLen + 1
    · rw [if_pos full]
      refine .failed rfl holds.written ?_
      intro next same
      rw [step, Option.some.injEq] at same
      rw [← same, length]
      omega
    · have slashed : ∀ i ∈ (buf.store [Byte.slash]).written, i < outCap :=
        PathBuf.store_written holds.written (by rw [List.length_singleton]; omega)
      have longer : (buf.store [Byte.slash]).outLen = buf.outLen + 1 := PathBuf.outLen_store _
      rw [if_neg full, appendName_eq small (by omega), longer]
      by_cases fits : buf.outLen + 1 + segment.length + 1 ≤ outCap
      · rw [if_pos fits]
        refine .moved rfl step ⟨joined.symm, names, ?_, PathBuf.store_written slashed (by omega)⟩
        rw [PathBuf.outLen_store, longer]
        exact fits
      · rw [if_neg fits]
        refine .failed rfl slashed ?_
        intro next same
        rw [step, Option.some.injEq] at same
        rw [← same, length]
        omega
  · have empty : stack = [] := isEmpty.mp (by omega)
    have joined : joinSegments (stack ++ [segment]) = segment := by rw [joinSegments_concat, if_pos empty]
    have zero : buf.outLen = 0 := by omega
    have nothing : buf.out = [] := List.length_eq_zero_iff.mp zero
    rw [if_neg more, appendName_eq small room]
    by_cases fits : buf.outLen + segment.length + 1 ≤ outCap
    · rw [if_pos fits]
      refine .moved rfl step ⟨?_, names, ?_, PathBuf.store_written holds.written (by omega)⟩
      · rw [joined, PathBuf.store, nothing]
        rfl
      · rw [PathBuf.outLen_store]
        exact fits
    · rw [if_neg fits]
      refine .failed rfl holds.written ?_
      intro next same
      rw [step, Option.some.injEq] at same
      rw [← same, joined]
      omega

theorem normalizeSegment_exact (small : outCap < 2 ^ 32) (holds : buf.Holds outCap stack) (nonempty : segment ≠ [])
    (chars : ∀ c ∈ segment, isValidImportPathChar c = true ∧ c ≠ Byte.slash) :
    StepExact outCap stack segment (normalizeSegment outCap segment buf) := by
  unfold normalizeSegment
  by_cases here : segment = [Byte.dot]
  · rw [if_pos here]
    exact .moved rfl (by rw [pathStep, if_pos here]) holds
  · rw [if_neg here]
    by_cases up : segment = [Byte.dot, Byte.dot]
    · rw [if_pos up]
      by_cases root : buf.outLen = 0
      · have empty : stack = [] := by
          rw [PathBuf.outLen, holds.out, List.length_eq_zero_iff, joinSegments_eq_nil holds.names] at root
          exact root
        rw [if_pos root]
        refine .failed rfl holds.written ?_
        intro next step
        rw [pathStep, if_neg here, if_pos up, if_pos empty] at step
        cases step
      · rw [if_neg root]
        rcases List.eq_nil_or_concat stack with rfl | ⟨before, last, rfl⟩
        · exact absurd (congrArg List.length holds.out) root
        · have names := holds.names
          have out := holds.out
          have fits := holds.fits
          rw [List.concat_eq_append] at names out ⊢
          have last_ := names last (List.mem_append_right _ List.mem_cons_self)
          have popped : buf.popSegment.out = joinSegments before := by
            rw [PathBuf.popSegment, out]
            exact popSegment_joinSegments last_
          have shorter : buf.popSegment.outLen ≤ buf.outLen := by
            rw [PathBuf.outLen, PathBuf.outLen, popped, out, joinSegments_concat]
            split
            · next empty =>
              rw [empty]
              exact Nat.zero_le _
            · rw [List.length_append]
              omega
          refine .moved rfl ?_ ⟨popped, fun other member => names other (List.mem_append_left _ member), ?_,
            holds.written⟩
          · rw [pathStep, if_neg here, if_pos up, if_neg (by simp), List.dropLast_concat]
          · dsimp only
            omega
    · rw [if_neg up]
      exact appendSegment_exact small holds ⟨nonempty, chars, here, up⟩

end Steps

/-! ### The loop walks the segments -/

theorem Resolves.nil {outCap : Nat} {stack : List (List UInt8)} (room : (joinSegments stack).length + 1 ≤ outCap) :
    Resolves outCap stack [] stack := by
  refine ⟨(fun _ member => nomatch member), rfl, ?_⟩
  intro k between walk
  rw [List.take_nil] at walk
  cases walk
  exact room

theorem Resolves.cons {outCap : Nat} {stack next final segments : List (List UInt8)} {segment : List UInt8}
    (nonempty : segment ≠ []) (step : pathStep stack segment = some next)
    (room : (joinSegments stack).length + 1 ≤ outCap)
    (rest : Resolves outCap next segments final) : Resolves outCap stack (segment :: segments) final := by
  refine ⟨?_, ?_, ?_⟩
  · intro other member
    rcases List.mem_cons.mp member with rfl | later
    · exact nonempty
    · exact rest.nonempty other later
  · rw [List.foldlM_cons, step]
    exact rest.walk
  · intro k between walk
    cases k with
    | zero =>
      cases walk
      exact room
    | succ k =>
      rw [List.take_succ_cons, List.foldlM_cons, step] at walk
      exact rest.fits k between walk

theorem Resolves.uncons {outCap : Nat} {stack final segments : List (List UInt8)} {segment : List UInt8}
    (resolves : Resolves outCap stack (segment :: segments) final) :
    ∃ next, pathStep stack segment = some next ∧ (joinSegments next).length + 1 ≤ outCap ∧
      Resolves outCap next segments final := by
  have walk := resolves.walk
  rw [List.foldlM_cons] at walk
  obtain ⟨next, step, rest⟩ := Option.bind_eq_some_iff.mp walk
  have later : ∀ k between, (segments.take k).foldlM pathStep next = some between →
      (joinSegments between).length + 1 ≤ outCap := by
    intro k between walk
    refine resolves.fits (k + 1) between ?_
    rw [List.take_succ_cons, List.foldlM_cons, step]
    exact walk
  exact ⟨next, step, later 0 next rfl,
    fun other member => resolves.nonempty other (List.mem_cons_of_mem _ member), rest,
    later⟩

theorem takeWhile_notSlash {rest : List UInt8} {c : UInt8}
    (member : c ∈ rest.takeWhile fun c => c ≠ Byte.slash) : c ≠ Byte.slash := by
  have all := List.all_takeWhile (p := fun c : UInt8 => decide (c ≠ Byte.slash)) (l := rest)
  simpa using List.all_eq_true.mp all c member

/-- The first segment of a path and what follows its slash. -/
theorem splitOn_slash (rest : List UInt8) :
    rest.splitOn Byte.slash = (rest.takeWhile fun c => c ≠ Byte.slash) ::
      match rest.dropWhile fun c => c ≠ Byte.slash with
      | [] => []
      | _ :: more => more.splitOn Byte.slash := by
  have whole := List.takeWhile_append_dropWhile (p := fun c : UInt8 => decide (c ≠ Byte.slash)) (l := rest)
  have free : Byte.slash ∉ rest.takeWhile fun c => c ≠ Byte.slash := fun member => takeWhile_notSlash member rfl
  cases tail : rest.dropWhile fun c => c ≠ Byte.slash with
  | nil =>
    rw [tail, List.append_nil] at whole
    dsimp only
    rw [whole]
    rw [whole] at free
    exact List.splitOn_eq_singleton free
  | cons c more =>
    have isSlash : c = Byte.slash := by
      have remains : (rest.dropWhile fun c : UInt8 => decide (c ≠ Byte.slash)) ≠ [] := by
        rw [tail]
        simp
      have head := List.head_dropWhile_not (fun c : UInt8 => decide (c ≠ Byte.slash)) remains
      simp only [tail, List.head_cons] at head
      simpa using head
    subst isSlash
    rw [tail] at whole
    conv_lhs => rw [← whole]
    exact List.splitOn_append_cons_self_of_not_mem free more

theorem normalizeLoop_exact {outCap : Nat} (small : outCap < 2 ^ 32) {rest : List UInt8} {buf : PathBuf}
    {stack : List (List UInt8)} (holds : buf.Holds outCap stack)
    (chars : ∀ c ∈ rest, isValidImportPathChar c = true) :
    (∀ i ∈ (normalizeLoop outCap rest buf).2.written, i < outCap) ∧
      ((normalizeLoop outCap rest buf).1 = none →
        ∃ final, Resolves outCap stack (rest.splitOn Byte.slash) final ∧
        (normalizeLoop outCap rest buf).2.Holds outCap final) ∧
      ∀ reason, (normalizeLoop outCap rest buf).1 = some reason →
        ∀ final, ¬Resolves outCap stack (rest.splitOn Byte.slash) final := by
  have segmentChars : ∀ c ∈ rest.takeWhile fun c => c ≠ Byte.slash,
      isValidImportPathChar c = true ∧ c ≠ Byte.slash :=
    fun c member => ⟨chars c ((List.takeWhile_sublist _).mem member), takeWhile_notSlash member⟩
  fun_induction normalizeLoop outCap rest buf generalizing stack with
  | case1 rest buf segment =>
    rename_i empty
    refine ⟨holds.written, (fun absurd_ => nomatch absurd_), ?_⟩
    intro reason _ final resolves
    rw [splitOn_slash] at resolves
    exact resolves.nonempty _ List.mem_cons_self empty
  | case2 rest buf segment nonempty reason buf' =>
    rename_i step
    have exact_ := normalizeSegment_exact small holds nonempty segmentChars
    rw [step] at exact_
    refine ⟨exact_.written, (fun absurd_ => nomatch absurd_), ?_⟩
    intro reason' _ final resolves
    rw [splitOn_slash] at resolves
    obtain ⟨next, moves, fits, -⟩ := resolves.uncons
    have tooLong := exact_.stops reason rfl next moves
    omega
  | case3 rest buf segment nonempty buf' step =>
    rename_i tail
    have exact_ := normalizeSegment_exact small holds nonempty segmentChars
    rw [step] at exact_
    obtain ⟨next, moves, holds'⟩ := exact_.moves rfl
    rw [splitOn_slash, tail]
    refine ⟨holds'.written, ?_, fun _ absurd_ => nomatch absurd_⟩
    intro _
    have last : Resolves outCap next [] next := .nil (by rw [← holds'.out]; exact holds'.fits)
    refine ⟨next, .cons nonempty moves ?_ last, holds'⟩
    rw [← holds.out]
    exact holds.fits
  | case4 rest buf segment nonempty buf' step c more tail =>
    rename_i ih
    have exact_ := normalizeSegment_exact small holds nonempty segmentChars
    rw [step] at exact_
    obtain ⟨next, moves, holds'⟩ := exact_.moves rfl
    have moreChars : ∀ d ∈ more, isValidImportPathChar d = true := by
      intro d member
      refine chars d ((List.dropWhile_sublist fun c => decide (c ≠ Byte.slash)).mem ?_)
      rw [tail]
      exact List.mem_cons_of_mem c member
    obtain ⟨written, moved, stopped⟩ := ih holds' moreChars fun d member =>
      ⟨moreChars d ((List.takeWhile_sublist _).mem member), takeWhile_notSlash member⟩
    rw [splitOn_slash, tail]
    refine ⟨written, ?_, ?_⟩
    · intro none_
      obtain ⟨final, resolves, holdsFinal⟩ := moved none_
      refine ⟨final, .cons nonempty moves ?_ resolves, holdsFinal⟩
      rw [← holds.out]
      exact holds.fits
    · intro reason isReason final resolves
      obtain ⟨next', moves', fits, rest⟩ := resolves.uncons
      rw [moves, Option.some.injEq] at moves'
      subst moves'
      exact stopped reason isReason final rest

/-! ### The whole function -/

/-- The path is relative, made of allowed characters, and its segments leave a stack that fits. -/
structure ImportPathOk (importPath : List UInt8) (outCap : Nat) (final : List (List UInt8)) : Prop where
  nonempty : importPath ≠ []
  relative : importPath.head? ≠ some Byte.slash
  chars : ∀ c ∈ importPath, isValidImportPathChar c = true
  resolves : Resolves outCap [] (importPath.splitOn Byte.slash) final
  remains : final ≠ []

theorem isAsciiSpace_not_valid {c : UInt8} (valid : isValidImportPathChar c = true) : isAsciiSpace c = false := by
  cases space : isAsciiSpace c with
  | false => rfl
  | true =>
    simp only [isAsciiSpace, Bool.or_eq_true, decide_eq_true_eq] at space
    rcases space with ((((rfl | rfl) | rfl) | rfl) | rfl) | rfl <;> cases valid

theorem any_isAsciiSpace {found : Option UInt8} (valid : ∀ c, found = some c → isValidImportPathChar c = true) :
    found.any isAsciiSpace = false := by
  cases found with
  | none => rfl
  | some c => exact isAsciiSpace_not_valid (valid c rfl)

/-- Before the loop the function only rejects paths that are not acceptable. -/
theorem normalizeImportPath_loop {importPath : List UInt8} {outCap : Nat} (positive : outCap ≠ 0)
    (nonempty : importPath ≠ []) (relative : importPath.head? ≠ some Byte.slash)
    (chars : ∀ c ∈ importPath, isValidImportPathChar c = true) (notHere : importPath ≠ [Byte.dot])
    (notUp : importPath ≠ [Byte.dot, Byte.dot]) :
    normalizeImportPath importPath outCap =
      match normalizeLoop outCap importPath ⟨[], []⟩ with
      | (some reason, buf) => (some reason, buf)
      | (none, buf) => if buf.outLen = 0 then (some "empty path", buf) else (none, buf.terminate) := by
  have head : importPath.head?.any isAsciiSpace = false :=
    any_isAsciiSpace fun c found => chars c (List.mem_of_mem_head? found)
  have last : importPath.getLast?.any isAsciiSpace = false :=
    any_isAsciiSpace fun c found => chars c (List.mem_of_getLast? found)
  have all : importPath.all isValidImportPathChar = true := List.all_eq_true.mpr chars
  unfold normalizeImportPath
  rw [if_neg nonempty, if_neg positive, if_neg relative, if_neg notHere, if_neg notUp, head, last, all,
    Bool.or_self, if_neg Bool.false_ne_true, if_neg (by decide)]

theorem mem_joinSegments {stack : List (List UInt8)} {c : UInt8} (member : c ∈ joinSegments stack) :
    c = Byte.slash ∨ ∃ segment ∈ stack, c ∈ segment := by
  induction stack with
  | nil => cases member
  | cons first stack ih =>
    by_cases empty : stack = []
    · subst empty
      rw [joinSegments, List.intercalate_singleton] at member
      exact .inr ⟨first, List.mem_cons_self, member⟩
    · rw [joinSegments, List.intercalate_cons_of_ne_nil empty] at member
      rcases List.mem_append.mp member with head | later
      · rcases List.mem_append.mp head with here | slash
        · exact .inr ⟨first, List.mem_cons_self, here⟩
        · exact .inl (List.mem_singleton.mp slash)
      · rcases ih later with slash | ⟨segment, inStack, inSegment⟩
        · exact .inl slash
        · exact .inr ⟨segment, List.mem_cons_of_mem _ inStack, inSegment⟩

theorem joinSegments_length_le (stack more : List (List UInt8)) :
    (joinSegments stack).length ≤ (joinSegments (stack ++ more)).length := by
  induction more using List.reverseRecOn with
  | nil => rw [List.append_nil]
  | append_singleton more segment ih =>
    rw [← List.append_assoc, joinSegments_concat]
    by_cases empty : stack ++ more = []
    · rw [(List.append_eq_nil_iff.mp empty).1]
      exact Nat.zero_le _
    · rw [if_neg empty, List.length_append]
      omega

theorem foldlM_names {segments : List (List UInt8)} (names : ∀ segment ∈ segments, PathName segment)
    (stack : List (List UInt8)) : segments.foldlM pathStep stack = some (stack ++ segments) := by
  induction segments generalizing stack with
  | nil =>
    rw [List.append_nil]
    rfl
  | cons segment segments ih =>
    have name := names segment List.mem_cons_self
    have rest := ih (fun other member => names other (List.mem_cons_of_mem _ member)) (stack ++ [segment])
    rw [List.foldlM_cons, pathStep, if_neg name.notHere, if_neg name.notUp]
    refine rest.trans ?_
    rw [List.append_assoc, List.singleton_append]

theorem splitOn_joinSegments {stack : List (List UInt8)} (names : ∀ segment ∈ stack, PathName segment)
    (nonempty : stack ≠ []) : (joinSegments stack).splitOn Byte.slash = stack :=
  List.splitOn_intercalate Byte.slash (fun segment member slash => ((names segment member).chars _ slash).2 rfl)
    nonempty

/-- A joined stack is itself an acceptable path, and it stays on the stack as it is. -/
theorem joinSegments_ok {stack : List (List UInt8)} {outCap : Nat} (names : ∀ segment ∈ stack, PathName segment)
    (nonempty : stack ≠ []) (fits : (joinSegments stack).length + 1 ≤ outCap) :
    ImportPathOk (joinSegments stack) outCap stack := by
  have split := splitOn_joinSegments names nonempty
  refine ⟨fun empty => nonempty ((joinSegments_eq_nil names).mp empty), ?_, ?_, ?_, nonempty⟩
  · intro absolute
    obtain ⟨rest, isSlash⟩ := exists_tail absolute
    have first : [] ∈ (joinSegments stack).splitOn Byte.slash := by
      rw [splitOn_slash, isSlash]
      exact List.mem_cons_self
    rw [split] at first
    exact (names [] first).nonempty rfl
  · intro c member
    rcases mem_joinSegments member with rfl | ⟨segment, inStack, inSegment⟩
    · rfl
    · exact ((names segment inStack).chars c inSegment).1
  · rw [split]
    refine ⟨fun segment member => (names segment member).nonempty, foldlM_names names [], ?_⟩
    intro k between walk
    rw [foldlM_names (fun segment member => names segment (List.mem_of_mem_take member)), List.nil_append,
      Option.some.injEq] at walk
    subst walk
    have shorter := joinSegments_length_le (stack.take k) (stack.drop k)
    rw [List.take_append_drop] at shorter
    omega

theorem holds_empty {outCap : Nat} (positive : 0 < outCap) : PathBuf.Holds outCap ⟨[], []⟩ [] :=
  ⟨rfl, (fun _ member => nomatch member), positive, (fun _ member => nomatch member)⟩

/-- The function succeeds on the acceptable paths only, and writes only inside the buffer. -/
theorem normalizeImportPath_sound {importPath : List UInt8} {outCap : Nat} (positive : 0 < outCap)
    (small : outCap < 2 ^ 32) :
    (∀ i ∈ (normalizeImportPath importPath outCap).2.written, i < outCap) ∧
      ((normalizeImportPath importPath outCap).1 = none → ∃ final, ImportPathOk importPath outCap final ∧
        (∀ segment ∈ final, PathName segment) ∧ (joinSegments final).length + 1 ≤ outCap ∧
        (normalizeImportPath importPath outCap).2.out = joinSegments final) := by
  have stopped : ∀ (reason : String) (result : PathResult), result = (some reason, ⟨[], []⟩) →
      (∀ i ∈ result.2.written, i < outCap) ∧ (result.1 = none → ∃ final, ImportPathOk importPath outCap final ∧
        (∀ segment ∈ final, PathName segment) ∧ (joinSegments final).length + 1 ≤ outCap ∧
        result.2.out = joinSegments final) := by
    rintro reason result rfl
    exact ⟨(fun _ member => nomatch member), (fun absurd_ => nomatch absurd_)⟩
  by_cases empty : importPath = []
  · exact stopped _ _ (if_pos empty)
  · by_cases absolute : importPath.head? = some Byte.slash
    · refine stopped "absolute path" _ ?_
      rw [normalizeImportPath, if_neg empty, if_neg (by omega), if_pos absolute]
    · by_cases here : importPath = [Byte.dot]
      · refine stopped "cannot import itself" _ ?_
        rw [normalizeImportPath, if_neg empty, if_neg (by omega), if_neg absolute, if_pos here]
      · by_cases up : importPath = [Byte.dot, Byte.dot]
        · refine stopped "cannot import parent root" _ ?_
          rw [normalizeImportPath, if_neg empty, if_neg (by omega), if_neg absolute, if_neg here, if_pos up]
        · by_cases chars : ∀ c ∈ importPath, isValidImportPathChar c = true
          · obtain ⟨written, moved, -⟩ := normalizeLoop_exact small (holds_empty positive) chars
            rw [normalizeImportPath_loop (by omega) empty absolute chars here up]
            cases loop : normalizeLoop outCap importPath ⟨[], []⟩ with
            | mk reason buf =>
              rw [loop] at written moved
              cases reason with
              | some reason => exact ⟨written, fun absurd_ => nomatch absurd_⟩
              | none =>
                obtain ⟨final, resolves, holds⟩ := moved rfl
                dsimp only
                by_cases nothing : buf.outLen = 0
                · rw [if_pos nothing]
                  exact ⟨written, fun absurd_ => nomatch absurd_⟩
                · rw [if_neg nothing]
                  have fits := holds.fits
                  refine ⟨?_, ?_⟩
                  · intro i member
                    rcases List.mem_append.mp member with old | new
                    · exact written i old
                    · rw [List.mem_singleton.mp new]
                      exact fits
                  · intro _
                    refine ⟨final, ⟨empty, absolute, chars, resolves, ?_⟩, holds.names, ?_, holds.out⟩
                    · rintro rfl
                      exact nothing (congrArg List.length holds.out)
                    · rw [← holds.out]
                      exact fits
          · have bad : importPath.all isValidImportPathChar = false := by
              rw [← Bool.not_eq_true, List.all_eq_true]
              exact chars
            by_cases space : (importPath.head?.any isAsciiSpace || importPath.getLast?.any isAsciiSpace) = true
            · refine stopped "leading/trailing whitespace" _ ?_
              rw [normalizeImportPath, if_neg empty, if_neg (by omega), if_neg absolute, if_neg here, if_neg up,
                if_pos space]
            · refine stopped "invalid character" _ ?_
              rw [normalizeImportPath, if_neg empty, if_neg (by omega), if_neg absolute, if_neg here, if_neg up,
                if_neg space, if_pos bad]

/-- Every acceptable path is normalized to its joined stack. -/
theorem normalizeImportPath_complete {importPath : List UInt8} {outCap : Nat} (small : outCap < 2 ^ 32)
    {final : List (List UInt8)} (ok : ImportPathOk importPath outCap final) :
    (normalizeImportPath importPath outCap).1 = none ∧
      (normalizeImportPath importPath outCap).2.out = joinSegments final ∧ ∀ segment ∈ final, PathName segment := by
  have positive : 0 < outCap := by
    have room := ok.resolves.fits 0 [] rfl
    omega
  have notHere : importPath ≠ [Byte.dot] := by
    intro here
    have walk := ok.resolves.walk
    rw [here] at walk
    cases walk
    exact ok.remains rfl
  have notUp : importPath ≠ [Byte.dot, Byte.dot] := by
    intro up
    have walk := ok.resolves.walk
    rw [up] at walk
    cases walk
  obtain ⟨-, moved, stopped⟩ := normalizeLoop_exact small (holds_empty positive) ok.chars
  rw [normalizeImportPath_loop (by omega) ok.nonempty ok.relative ok.chars notHere notUp]
  cases loop : normalizeLoop outCap importPath ⟨[], []⟩ with
  | mk reason buf =>
    rw [loop] at moved stopped
    cases reason with
    | some reason => exact absurd ok.resolves (stopped reason rfl final)
    | none =>
      obtain ⟨final', resolves, holds⟩ := moved rfl
      have same := resolves.walk.symm.trans ok.resolves.walk
      rw [Option.some.injEq] at same
      subst same
      have some_ : buf.outLen ≠ 0 := by
        rw [PathBuf.outLen, holds.out]
        intro zero
        exact ok.remains ((joinSegments_eq_nil holds.names).mp (List.length_eq_zero_iff.mp zero))
      dsimp only
      rw [if_neg some_]
      exact ⟨rfl, holds.out, holds.names⟩

/-- An import path is normalized exactly if it is acceptable; the result is the joined stack of its segments, inside
the buffer, a fixed point, and the same for two paths exactly if they lead to one directory. -/
theorem normalizeImportPath_exact (importPath : List UInt8) (outCap : UInt32) (positive : 0 < outCap.toNat) :
    ((normalizeImportPath importPath outCap.toNat).1 = none ↔ ∃ final, ImportPathOk importPath outCap.toNat final) ∧
    (∀ final, ImportPathOk importPath outCap.toNat final →
      (normalizeImportPath importPath outCap.toNat).2.out = joinSegments final) ∧
    (∀ i ∈ (normalizeImportPath importPath outCap.toNat).2.written, i < outCap.toNat) ∧
    ((normalizeImportPath importPath outCap.toNat).1 = none →
      (normalizeImportPath (normalizeImportPath importPath outCap.toNat).2.out outCap.toNat).1 = none ∧
      (normalizeImportPath (normalizeImportPath importPath outCap.toNat).2.out outCap.toNat).2.out =
        (normalizeImportPath importPath outCap.toNat).2.out) ∧
    ∀ other final final', ImportPathOk importPath outCap.toNat final → ImportPathOk other outCap.toNat final' →
      ((normalizeImportPath importPath outCap.toNat).2.out = (normalizeImportPath other outCap.toNat).2.out ↔
        final = final') := by
  have small : outCap.toNat < 2 ^ 32 := outCap.toNat_lt
  obtain ⟨written, sound⟩ := @normalizeImportPath_sound importPath _ positive small
  refine ⟨⟨?_, ?_⟩, ?_, written, ?_, ?_⟩
  · intro success
    obtain ⟨final, ok, -⟩ := sound success
    exact ⟨final, ok⟩
  · rintro ⟨final, ok⟩
    exact (normalizeImportPath_complete small ok).1
  · intro final ok
    exact (normalizeImportPath_complete small ok).2.1
  · intro success
    obtain ⟨final, ok, names, fits, out⟩ := sound success
    obtain ⟨again, same, -⟩ := normalizeImportPath_complete small (joinSegments_ok names ok.remains fits)
    rw [out]
    exact ⟨again, same⟩
  · intro other final final' ok ok'
    obtain ⟨-, out, names⟩ := normalizeImportPath_complete small ok
    obtain ⟨-, out', names'⟩ := normalizeImportPath_complete small ok'
    rw [out, out']
    constructor
    · intro same
      rw [← splitOn_joinSegments names ok.remains, same, splitOn_joinSegments names' ok'.remains]
    · rintro rfl
      rfl

/-- `a/./b/../c` is `a/c`, in a buffer of four bytes. -/
theorem normalizeImportPath_sample :
    (normalizeImportPath (bytesOf "a/./b/../c") 4).2.out = bytesOf "a/c" ∧
      ∀ i ∈ (normalizeImportPath (bytesOf "a/./b/../c") 4).2.written, i < 4 :=
  ⟨by decide +kernel, (normalizeImportPath_exact (bytesOf "a/./b/../c") 4 (by decide)).2.2.1⟩

end HopHop
