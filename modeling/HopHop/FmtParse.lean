import HopHop.Bytes
import Mathlib.Data.List.Chain

namespace HopHop

/-! ### Format strings -/

inductive FmtTokKind
  | LITERAL | PLACEHOLDER_I | PLACEHOLDER_F | PLACEHOLDER_S | PLACEHOLDER_R
  deriving DecidableEq, Repr

structure FmtToken where
  kind : FmtTokKind
  start : Nat
  stop : Nat
  deriving DecidableEq, Repr

inductive FmtParseErrCode
  | NONE | INVALID_PLACEHOLDER | UNMATCHED_CLOSE_BRACE | TOKEN_OVERFLOW
  deriving DecidableEq, Repr

structure FmtParseError where
  code : FmtParseErrCode
  start : Nat
  stop : Nat
  deriving DecidableEq, Repr

def fmtPushToken (tokenCap : Nat) (tokens : List FmtToken) (kind : FmtTokKind) (start stop : Nat) :
    Except FmtParseError (List FmtToken) :=
  if tokenCap ≤ tokens.length then .error ⟨.TOKEN_OVERFLOW, start, stop⟩ else .ok (tokens ++ [⟨kind, start, stop⟩])

/-- The literal run that ends at `i`, if it is not empty. -/
def fmtPushLiteral (tokenCap : Nat) (tokens : List FmtToken) (literalStart i : Nat) :
    Except FmtParseError (List FmtToken) :=
  if literalStart < i then fmtPushToken tokenCap tokens .LITERAL literalStart i else .ok tokens

def fmtLetterKind (letter : UInt8) : Option FmtTokKind :=
  if letter = 0x69 then some .PLACEHOLDER_I
  else if letter = 0x66 then some .PLACEHOLDER_F
  else if letter = 0x73 then some .PLACEHOLDER_S
  else if letter = 0x72 then some .PLACEHOLDER_R
  else none

/-- The placeholder whose opening brace stands before `rest`. -/
def fmtPlaceholder (rest : List UInt8) : Option FmtTokKind :=
  match rest with
  | letter :: close :: _ => if close = Byte.closeBrace then fmtLetterKind letter else none
  | _ => none

/-- The loop of `H2FmtParseBytes` from index `i`, where `rest` begins. -/
def fmtLoop (tokenCap : Nat) (rest : List UInt8) (i literalStart : Nat) (tokens : List FmtToken) :
    Except FmtParseError (List FmtToken) :=
  match rest with
  | [] => fmtPushLiteral tokenCap tokens literalStart i
  | b :: more =>
    if b = Byte.openBrace then
      if more.head? = some Byte.openBrace then fmtLoop tokenCap (more.drop 1) (i + 2) literalStart tokens
      else
        match fmtPushLiteral tokenCap tokens literalStart i with
        | .error err => .error err
        | .ok tokens =>
          match fmtPlaceholder more with
          | none => .error ⟨.INVALID_PLACEHOLDER, i, if more = [] then i + 1 else i + 2⟩
          | some kind =>
            match fmtPushToken tokenCap tokens kind i (i + 3) with
            | .error err => .error err
            | .ok tokens => fmtLoop tokenCap (more.drop 2) (i + 3) (i + 3) tokens
    else if b = Byte.closeBrace then
      if more.head? = some Byte.closeBrace then fmtLoop tokenCap (more.drop 1) (i + 2) literalStart tokens
      else .error ⟨.UNMATCHED_CLOSE_BRACE, i, i + 1⟩
    else fmtLoop tokenCap more (i + 1) literalStart tokens
termination_by rest.length
decreasing_by
  all_goals
    simp only [List.length_drop, List.length_cons]
    omega

def fmtParseBytes (bytes : List UInt8) (tokenCap : Nat) : Except FmtParseError (List FmtToken) :=
  fmtLoop tokenCap bytes 0 0 []

/-! ### What a format string is made of -/

inductive FmtItem
  | plain (b : UInt8) (notBrace : b ≠ Byte.openBrace ∧ b ≠ Byte.closeBrace)
  | doubled (b : UInt8) (brace : b = Byte.openBrace ∨ b = Byte.closeBrace)
  | placeholder (letter : UInt8) (kind : FmtTokKind) (named : fmtLetterKind letter = some kind)

namespace FmtItem

def text : FmtItem → List UInt8
  | plain b _ => [b]
  | doubled b _ => [b, b]
  | placeholder letter _ _ => [Byte.openBrace, letter, Byte.closeBrace]

/-- The byte that an item of a literal run stands for. -/
def literal : FmtItem → Option UInt8
  | plain b _ | doubled b _ => some b
  | placeholder _ _ _ => none

end FmtItem

def fmtText (items : List FmtItem) : List UInt8 := items.flatMap FmtItem.text

def fmtRun (literalStart i : Nat) : List FmtToken :=
  if literalStart < i then [⟨.LITERAL, literalStart, i⟩] else []

/-- The tokens of items from index `i` on, where a literal run has begun at `literalStart`. -/
def fmtTokens (literalStart i : Nat) : List FmtItem → List FmtToken
  | [] => fmtRun literalStart i
  | .placeholder _ kind _ :: items => fmtRun literalStart i ++ ⟨kind, i, i + 3⟩ :: fmtTokens (i + 3) (i + 3) items
  | .plain _ _ :: items => fmtTokens literalStart (i + 1) items
  | .doubled _ _ :: items => fmtTokens literalStart (i + 2) items

/-! ### The parser finds the items -/

section Loop

variable {tokenCap i literalStart : Nat} {tokens out : List FmtToken}

theorem fmtPushToken_ok {kind : FmtTokKind} {start stop : Nat} :
    fmtPushToken tokenCap tokens kind start stop = .ok out ↔
      out = tokens ++ [⟨kind, start, stop⟩] ∧ out.length ≤ tokenCap := by
  unfold fmtPushToken
  by_cases full : tokenCap ≤ tokens.length
  · rw [if_pos full]
    constructor
    · intro run
      cases run
    · rintro ⟨rfl, fits⟩
      rw [List.length_append, List.length_singleton] at fits
      omega
  · rw [if_neg full]
    constructor
    · intro run
      cases run
      rw [List.length_append, List.length_singleton]
      exact ⟨rfl, by omega⟩
    · rintro ⟨rfl, -⟩
      rfl

theorem fmtPushLiteral_ok (fits : tokens.length ≤ tokenCap) :
    fmtPushLiteral tokenCap tokens literalStart i = .ok out ↔
      out = tokens ++ fmtRun literalStart i ∧ out.length ≤ tokenCap := by
  unfold fmtPushLiteral fmtRun
  by_cases more : literalStart < i
  · rw [if_pos more, if_pos more, fmtPushToken_ok]
  · rw [if_neg more, if_neg more, List.append_nil]
    constructor
    · intro run
      cases run
      exact ⟨rfl, fits⟩
    · rintro ⟨rfl, -⟩
      rfl

theorem fmtPlaceholder_some {rest : List UInt8} {kind : FmtTokKind} (found : fmtPlaceholder rest = some kind) :
    ∃ letter, fmtLetterKind letter = some kind ∧ rest = letter :: Byte.closeBrace :: rest.drop 2 := by
  unfold fmtPlaceholder at found
  split at found
  next letter close tail =>
    rw [Option.ite_none_right_eq_some] at found
    exact ⟨letter, found.2, by rw [found.1]; rfl⟩
  next => cases found

theorem fmtLetterKind_not_open {letter : UInt8} {kind : FmtTokKind} (named : fmtLetterKind letter = some kind) :
    letter ≠ Byte.openBrace := by
  rintro rfl
  cases named

/-- The parser reads items from the left, pushes their tokens and never more than fit. -/
theorem fmtLoop_sound {rest : List UInt8} (fits : tokens.length ≤ tokenCap)
    (run : fmtLoop tokenCap rest i literalStart tokens = .ok out) :
    ∃ items, rest = fmtText items ∧ out = tokens ++ fmtTokens literalStart i items ∧ out.length ≤ tokenCap := by
  fun_induction fmtLoop tokenCap rest i literalStart tokens with
  | case1 i literalStart tokens =>
    obtain ⟨same, small⟩ := (fmtPushLiteral_ok fits).mp run
    exact ⟨[], rfl, same, small⟩
  | case2 i literalStart tokens more twice ih =>
    obtain ⟨items, text, same, small⟩ := ih fits run
    obtain ⟨tail, rfl⟩ := exists_tail twice
    refine ⟨.doubled Byte.openBrace (.inl rfl) :: items, ?_, same, small⟩
    rw [fmtText, List.flatMap_cons, ← fmtText, ← text]
    rfl
  | case3 => cases run
  | case4 => cases run
  | case5 => cases run
  | case6 i literalStart tokens more single pushed push kind found tokens' push' ih =>
    obtain ⟨rfl, small⟩ := (fmtPushLiteral_ok fits).mp push
    obtain ⟨rfl, small'⟩ := fmtPushToken_ok.mp push'
    obtain ⟨items, text, same, small''⟩ := ih small' run
    obtain ⟨letter, named, split⟩ := fmtPlaceholder_some found
    refine ⟨.placeholder letter kind named :: items, ?_, ?_, small''⟩
    · rw [fmtText, List.flatMap_cons, ← fmtText, ← text, split]
      rfl
    · rw [same, fmtTokens]
      simp only [List.append_assoc, List.cons_append, List.nil_append]
  | case7 i literalStart tokens more twice notOpen ih =>
    obtain ⟨items, text, same, small⟩ := ih fits run
    obtain ⟨tail, rfl⟩ := exists_tail twice
    refine ⟨.doubled Byte.closeBrace (.inr rfl) :: items, ?_, same, small⟩
    rw [fmtText, List.flatMap_cons, ← fmtText, ← text]
    rfl
  | case8 => cases run
  | case9 i literalStart tokens b more notOpen notClose ih =>
    obtain ⟨items, text, same, small⟩ := ih fits run
    refine ⟨.plain b ⟨notOpen, notClose⟩ :: items, ?_, same, small⟩
    rw [fmtText, List.flatMap_cons, ← fmtText, ← text]
    rfl

/-- Items whose tokens fit are read. -/
theorem fmtLoop_complete (items : List FmtItem) (fits : (tokens ++ fmtTokens literalStart i items).length ≤ tokenCap) :
    fmtLoop tokenCap (fmtText items) i literalStart tokens = .ok (tokens ++ fmtTokens literalStart i items) := by
  induction items generalizing i literalStart tokens with
  | nil =>
    have small : tokens.length ≤ tokenCap := by
      rw [List.length_append] at fits
      omega
    rw [show fmtText [] = [] from rfl, fmtLoop]
    exact (fmtPushLiteral_ok small).mpr ⟨rfl, fits⟩
  | cons item items ih =>
    have small : tokens.length ≤ tokenCap := by
      rw [List.length_append] at fits
      omega
    cases item with
    | plain b notBrace =>
      rw [show fmtText (.plain b notBrace :: items) = b :: fmtText items from rfl, fmtLoop, if_neg notBrace.1,
        if_neg notBrace.2]
      exact ih fits
    | doubled b brace =>
      rw [show fmtText (.doubled b brace :: items) = b :: b :: fmtText items from rfl, fmtLoop]
      rcases brace with rfl | rfl
      · rw [if_pos rfl, List.head?_cons, if_pos rfl]
        exact ih fits
      · rw [if_neg (by decide), if_pos rfl, List.head?_cons, if_pos rfl]
        exact ih fits
    | placeholder letter kind named =>
      have whole : tokens ++ fmtTokens literalStart i (.placeholder letter kind named :: items) =
          (tokens ++ fmtRun literalStart i ++ [⟨kind, i, i + 3⟩]) ++ fmtTokens (i + 3) (i + 3) items := by
        rw [fmtTokens]
        simp only [List.append_assoc, List.cons_append, List.nil_append]
      rw [whole] at fits ⊢
      have smaller : (tokens ++ fmtRun literalStart i ++ [FmtToken.mk kind i (i + 3)]).length ≤ tokenCap := by
        rw [List.length_append] at fits
        omega
      have smallest : (tokens ++ fmtRun literalStart i).length ≤ tokenCap := by
        rw [List.length_append] at smaller
        omega
      have first := (@fmtPushLiteral_ok tokenCap i literalStart tokens _ small).mpr ⟨rfl, smallest⟩
      have second : fmtPushToken tokenCap (tokens ++ fmtRun literalStart i) kind i (i + 3) =
          .ok (tokens ++ fmtRun literalStart i ++ [⟨kind, i, i + 3⟩]) := fmtPushToken_ok.mpr ⟨rfl, smaller⟩
      have isPlaceholder : fmtPlaceholder (letter :: Byte.closeBrace :: fmtText items) = some kind := by
        rw [fmtPlaceholder, if_pos rfl, named]
      rw [show fmtText (.placeholder letter kind named :: items) =
        Byte.openBrace :: letter :: Byte.closeBrace :: fmtText items from rfl, fmtLoop, if_pos rfl,
        if_neg (by
          rw [List.head?_cons, Option.some.injEq]
          exact fmtLetterKind_not_open named), first]
      dsimp only
      rw [isPlaceholder]
      dsimp only
      rw [second]
      exact ih fits

end Loop

/-- The parser succeeds with the tokens of the items of the format string, when these fit. -/
theorem fmtParseBytes_ok_iff {bytes : List UInt8} {tokenCap : Nat} {tokens : List FmtToken} :
    fmtParseBytes bytes tokenCap = .ok tokens ↔
      ∃ items, bytes = fmtText items ∧ tokens = fmtTokens 0 0 items ∧ tokens.length ≤ tokenCap := by
  constructor
  · exact fmtLoop_sound (Nat.zero_le _)
  · rintro ⟨items, rfl, rfl, fits⟩
    exact fmtLoop_complete items fits

/-! ### What the tokens say of the format string -/

def FmtToken.slice (bytes : List UInt8) (token : FmtToken) : List UInt8 :=
  (bytes.drop token.start).take (token.stop - token.start)

/-- The tokens follow each other without gaps from `start` to `stop`. -/
def FmtCovers (start : Nat) : List FmtToken → Nat → Prop
  | [], stop => start = stop
  | token :: tokens, stop => token.start = start ∧ start < token.stop ∧ FmtCovers token.stop tokens stop

/-- A byte of a literal run as it is written. -/
def fmtEscape (b : UInt8) : List UInt8 :=
  if b = Byte.openBrace ∨ b = Byte.closeBrace then [b, b] else [b]

/-- The bytes that a literal run stands for. -/
def fmtUnescape : List UInt8 → List UInt8
  | b :: c :: rest =>
    if (b = Byte.openBrace ∨ b = Byte.closeBrace) ∧ c = b then b :: fmtUnescape rest else b :: fmtUnescape (c :: rest)
  | bytes => bytes

def fmtLetter : FmtTokKind → UInt8
  | .PLACEHOLDER_I => 0x69
  | .PLACEHOLDER_F => 0x66
  | .PLACEHOLDER_S => 0x73
  | .PLACEHOLDER_R => 0x72
  | .LITERAL => 0

/-- What a part of a format string is written as: a literal by its bytes, a placeholder by its kind. -/
def fmtWrite (kind : FmtTokKind) (value : List UInt8) : List UInt8 :=
  if kind = .LITERAL then value.flatMap fmtEscape else [Byte.openBrace, fmtLetter kind, Byte.closeBrace]

/-- A token covers one placeholder, or a literal run that is not empty. -/
def FmtToken.Exact (bytes : List UInt8) (token : FmtToken) : Prop :=
  if token.kind = .LITERAL then
    ∃ items : List FmtItem, items ≠ [] ∧ (∀ item ∈ items, item.literal.isSome) ∧ token.slice bytes = fmtText items
  else token.slice bytes = [Byte.openBrace, fmtLetter token.kind, Byte.closeBrace]

theorem fmtLetterKind_eq {letter : UInt8} {kind : FmtTokKind} (named : fmtLetterKind letter = some kind) :
    kind ≠ .LITERAL ∧ letter = fmtLetter kind := by
  unfold fmtLetterKind at named
  split_ifs at named with isI isF isS isR <;> cases named
  · exact ⟨by decide, isI⟩
  · exact ⟨by decide, isF⟩
  · exact ⟨by decide, isS⟩
  · exact ⟨by decide, isR⟩

theorem fmtText_append (first second : List FmtItem) : fmtText (first ++ second) = fmtText first ++ fmtText second :=
  List.flatMap_append

theorem fmtText_literal {item : FmtItem} {b : UInt8} (isLiteral : item.literal = some b) : item.text = fmtEscape b := by
  cases item with
  | plain c notBrace =>
    cases isLiteral
    rw [FmtItem.text, fmtEscape, if_neg (by rintro (same | same); exacts [notBrace.1 same, notBrace.2 same])]
  | doubled c brace =>
    cases isLiteral
    rw [FmtItem.text, fmtEscape, if_pos brace]
  | placeholder letter kind named => cases isLiteral

theorem fmtUnescape_escape (value : List UInt8) : fmtUnescape (value.flatMap fmtEscape) = value := by
  induction value with
  | nil => rfl
  | cons b value ih =>
    rw [List.flatMap_cons]
    by_cases brace : b = Byte.openBrace ∨ b = Byte.closeBrace
    · rw [fmtEscape, if_pos brace, List.cons_append, List.singleton_append, fmtUnescape, if_pos ⟨brace, rfl⟩, ih]
    · rw [fmtEscape, if_neg brace, List.singleton_append]
      cases rest : value.flatMap fmtEscape with
      | nil =>
        rw [rest] at ih
        rw [fmtUnescape.eq_2 _ (by intro c d tail absurd_; cases absurd_), ← ih]
        rfl
      | cons c tail => rw [fmtUnescape, if_neg (fun both => brace both.1), ← rest, ih]

theorem FmtToken.Exact.written {bytes : List UInt8} {token : FmtToken} (exact_ : token.Exact bytes) :
    token.slice bytes = fmtWrite token.kind (fmtUnescape (token.slice bytes)) := by
  unfold Exact at exact_
  unfold fmtWrite
  by_cases isLiteral : token.kind = .LITERAL
  · rw [if_pos isLiteral] at exact_ ⊢
    obtain ⟨items, -, literals, text⟩ := exact_
    have whole : ∃ value : List UInt8, fmtText items = value.flatMap fmtEscape := by
      clear text
      induction items with
      | nil => exact ⟨[], rfl⟩
      | cons item items ih =>
        obtain ⟨value, rest⟩ := ih fun other member => literals other (List.mem_cons_of_mem _ member)
        obtain ⟨b, isByte⟩ := Option.isSome_iff_exists.mp (literals item List.mem_cons_self)
        refine ⟨b :: value, ?_⟩
        rw [List.flatMap_cons, ← rest, ← fmtText_literal isByte]
        rfl
    obtain ⟨value, escaped⟩ := whole
    rw [text, escaped, fmtUnescape_escape]
  · rw [if_neg isLiteral] at exact_ ⊢
    exact exact_

/-- Tokens that cover a range write its bytes one after the other. -/
theorem FmtCovers.slices {tokens : List FmtToken} {start stop : Nat} (covers : FmtCovers start tokens stop)
    (bytes : List UInt8) :
    start ≤ stop ∧ (bytes.drop start).take (stop - start) = tokens.flatMap fun token => token.slice bytes := by
  induction tokens generalizing start with
  | nil =>
    cases covers
    exact ⟨Nat.le_refl _, by rw [Nat.sub_self, List.take_zero]; rfl⟩
  | cons token tokens ih =>
    obtain ⟨rfl, positive, rest⟩ := covers
    obtain ⟨before, slices⟩ := ih rest
    refine ⟨by omega, ?_⟩
    rw [List.flatMap_cons, ← slices, FmtToken.slice, show stop - token.start =
      (token.stop - token.start) + (stop - token.stop) by omega, List.take_add, List.drop_drop,
      show token.start + (token.stop - token.start) = token.stop by omega]

theorem FmtCovers.append {first second : List FmtToken} {start middle stop : Nat}
    (covers : FmtCovers start first middle) (covers' : FmtCovers middle second stop) :
    FmtCovers start (first ++ second) stop := by
  induction first generalizing start with
  | nil =>
    cases covers
    exact covers'
  | cons token first ih =>
    obtain ⟨same, positive, rest⟩ := covers
    exact ⟨same, positive, ih rest⟩

/-- The token of a literal run covers it exactly. -/
theorem fmtRun_spec {bytes rest : List UInt8} {run : List FmtItem} {literalStart i : Nat}
    (literals : ∀ item ∈ run, item.literal.isSome) (bounds : i = literalStart + (fmtText run).length)
    (text : bytes.drop literalStart = fmtText run ++ rest) :
    FmtCovers literalStart (fmtRun literalStart i) i ∧ ∀ token ∈ fmtRun literalStart i, token.Exact bytes := by
  unfold fmtRun
  by_cases more : literalStart < i
  · rw [if_pos more]
    refine ⟨⟨rfl, more, rfl⟩, ?_⟩
    intro token member
    rw [List.mem_singleton.mp member, FmtToken.Exact, if_pos rfl]
    refine ⟨run, ?_, literals, ?_⟩
    · rintro rfl
      rw [bounds] at more
      exact Nat.lt_irrefl _ more
    · rw [FmtToken.slice, text, show i - literalStart = (fmtText run).length by omega, List.take_left]
  · rw [if_neg more]
    exact ⟨by rw [FmtCovers]; omega, by intro token member; cases member⟩

/-- An item of a literal run lengthens it. -/
theorem fmtRun_extend {bytes : List UInt8} {run items : List FmtItem} {item : FmtItem} {literalStart i : Nat}
    (literals : ∀ item ∈ run, item.literal.isSome) (isLiteral : item.literal.isSome)
    (bounds : i = literalStart + (fmtText run).length)
    (text : bytes.drop literalStart = fmtText run ++ fmtText (item :: items)) :
    (∀ other ∈ run ++ [item], other.literal.isSome) ∧
      i + item.text.length = literalStart + (fmtText (run ++ [item])).length ∧
      bytes.drop literalStart = fmtText (run ++ [item]) ++ fmtText items := by
  have one : fmtText [item] = item.text := List.flatMap_singleton ..
  refine ⟨?_, ?_, ?_⟩
  · intro other member
    rcases List.mem_append.mp member with old | new
    · exact literals other old
    · rw [List.mem_singleton.mp new]
      exact isLiteral
  · rw [fmtText_append, one, List.length_append, bounds]
    omega
  · rw [text, fmtText_append, one, List.append_assoc]
    rfl

/-- What the tokens of items are, when `run` is what the literal run holds so far: the run is closed by a placeholder
or by the end, so that no two literals meet. -/
theorem fmtTokens_spec (bytes : List UInt8) (items run : List FmtItem) {literalStart i : Nat}
    (literals : ∀ item ∈ run, item.literal.isSome) (bounds : i = literalStart + (fmtText run).length)
    (text : bytes.drop literalStart = fmtText run ++ fmtText items) :
    FmtCovers literalStart (fmtTokens literalStart i items) (i + (fmtText items).length) ∧
      (∀ token ∈ fmtTokens literalStart i items, token.Exact bytes) ∧
      (fmtTokens literalStart i items).IsChain fun first second => first.kind = .LITERAL → second.kind ≠ .LITERAL := by
  induction items generalizing run literalStart i with
  | nil =>
    obtain ⟨covers, each⟩ := fmtRun_spec literals bounds text
    refine ⟨covers, each, ?_⟩
    rw [fmtTokens, fmtRun]
    by_cases more : literalStart < i
    · rw [if_pos more]
      exact .singleton _
    · rw [if_neg more]
      exact .nil
  | cons item items ih =>
    cases item with
    | plain b notBrace =>
      obtain ⟨literals', bounds', text'⟩ := fmtRun_extend literals rfl bounds text
      obtain ⟨covers, each, chain⟩ := ih _ literals' bounds' text'
      refine ⟨?_, each, chain⟩
      rw [show fmtText (.plain b notBrace :: items) = b :: fmtText items from rfl, List.length_cons,
        show i + ((fmtText items).length + 1) = i + 1 + (fmtText items).length by omega]
      exact covers
    | doubled b brace =>
      obtain ⟨literals', bounds', text'⟩ := fmtRun_extend literals rfl bounds text
      obtain ⟨covers, each, chain⟩ := ih _ literals' bounds' text'
      refine ⟨?_, each, chain⟩
      rw [show fmtText (.doubled b brace :: items) = b :: b :: fmtText items from rfl, List.length_cons,
        List.length_cons, show i + ((fmtText items).length + 1 + 1) = i + 2 + (fmtText items).length by omega]
      exact covers
    | placeholder letter kind named =>
      obtain ⟨covers, each⟩ := fmtRun_spec literals bounds text
      obtain ⟨isPlaceholder, rfl⟩ := fmtLetterKind_eq named
      have here : bytes.drop i = Byte.openBrace :: fmtLetter kind :: Byte.closeBrace :: fmtText items := by
        rw [bounds, ← List.drop_drop, text, List.drop_left]
        rfl
      have after : bytes.drop (i + 3) = fmtText items := by
        rw [← List.drop_drop, here]
        rfl
      obtain ⟨covers', each', chain⟩ := @ih [] (i + 3) (i + 3) (by intro item member; cases member) rfl after
      rw [fmtTokens]
      refine ⟨?_, ?_, ?_⟩
      · refine covers.append ⟨rfl, by dsimp only; omega, ?_⟩
        rw [show fmtText (.placeholder (fmtLetter kind) kind named :: items) =
          Byte.openBrace :: fmtLetter kind :: Byte.closeBrace :: fmtText items from rfl]
        simp only [List.length_cons]
        rw [show i + ((fmtText items).length + 1 + 1 + 1) = i + 3 + (fmtText items).length by omega]
        exact covers'
      · intro token member
        rcases List.mem_append.mp member with literal | other
        · exact each token literal
        · rcases List.mem_cons.mp other with rfl | later
          · rw [FmtToken.Exact, if_neg isPlaceholder, FmtToken.slice, here]
            dsimp only
            rw [Nat.add_sub_cancel_left]
            rfl
          · exact each' token later
      · have after : (FmtToken.mk kind i (i + 3) :: fmtTokens (i + 3) (i + 3) items).IsChain
            fun first second => first.kind = .LITERAL → second.kind ≠ .LITERAL :=
          List.isChain_cons.mpr ⟨fun _ _ isLiteral => absurd isLiteral isPlaceholder, chain⟩
        rw [fmtRun]
        by_cases more : literalStart < i
        · rw [if_pos more, List.singleton_append]
          exact List.isChain_cons_cons.mpr ⟨fun _ => isPlaceholder, after⟩
        · rw [if_neg more, List.nil_append]
          exact after

/-- What a successful parse says of the format string. -/
structure FmtReads (bytes : List UInt8) (tokens : List FmtToken) : Prop where
  /-- The spans are in order, disjoint and cover the whole input. -/
  covers : FmtCovers 0 tokens bytes.length
  /-- A placeholder token is one placeholder, a literal one a run of plain bytes and doubled braces. -/
  each : ∀ token ∈ tokens, token.Exact bytes
  apart : tokens.IsChain fun first second => first.kind = .LITERAL → second.kind ≠ .LITERAL
  /-- The kinds and the unescaped literals determine the format string. -/
  written : bytes = tokens.flatMap fun token => fmtWrite token.kind (fmtUnescape (token.slice bytes))

/-- The parser accepts exactly the sequences of plain bytes, doubled braces and placeholders whose tokens fit, and its
tokens partition what it accepts. -/
theorem fmtParseBytes_exact (bytes : List UInt8) (tokenCap : Nat) :
    ((∃ tokens, fmtParseBytes bytes tokenCap = .ok tokens) ↔
      ∃ items, bytes = fmtText items ∧ (fmtTokens 0 0 items).length ≤ tokenCap) ∧
    ∀ tokens, fmtParseBytes bytes tokenCap = .ok tokens → FmtReads bytes tokens := by
  constructor
  · constructor
    · rintro ⟨tokens, run⟩
      obtain ⟨items, text, rfl, fits⟩ := fmtParseBytes_ok_iff.mp run
      exact ⟨items, text, fits⟩
    · rintro ⟨items, text, fits⟩
      exact ⟨_, fmtParseBytes_ok_iff.mpr ⟨items, text, rfl, fits⟩⟩
  · intro tokens run
    obtain ⟨items, rfl, rfl, -⟩ := fmtParseBytes_ok_iff.mp run
    obtain ⟨covers, each, apart⟩ :=
      @fmtTokens_spec (fmtText items) items [] 0 0 (by intro item member; cases member) rfl rfl
    rw [Nat.zero_add] at covers
    refine ⟨covers, each, apart, ?_⟩
    have slices := (covers.slices (fmtText items)).2
    rw [Nat.sub_zero, List.drop_zero, List.take_length] at slices
    refine slices.trans (List.flatMap_congr ?_)
    intro token member
    exact (each token member).written

theorem fmtParseBytes_sample :
    FmtReads (bytesOf "a\x7b\x7b\x7bi\x7d") [⟨.LITERAL, 0, 3⟩, ⟨.PLACEHOLDER_I, 3, 6⟩] :=
  (fmtParseBytes_exact _ 2).2 _ (by decide +kernel)

end HopHop
