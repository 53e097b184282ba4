import HopHop.Token

namespace HopHop

inductive StringLitErrKind
  | NONE | UNTERMINATED | INVALID_ESCAPE | INVALID_CODEPOINT | INVALID_UTF8 | ARENA_OOM
  deriving DecidableEq, Repr

structure StringLitErr where
  kind : StringLitErrKind
  start : Nat
  stop : Nat
  deriving DecidableEq, Repr

/-- State of the incremental UTF-8 check. `got` counts the bytes read of a sequence of `need`
bytes; `need` is zero between sequences. -/
structure Utf8State where
  firstByte : UInt8 := 0
  need : Nat := 0
  got : Nat := 0
  firstStart : Nat := 0
  firstStop : Nat := 0
  deriving DecidableEq, Repr

def hexDigit (c : UInt8) : Option Nat :=
  if 0x30 ≤ c ∧ c ≤ 0x39 then some (c.toNat - 0x30)
  else if 0x61 ≤ c ∧ c ≤ 0x66 then some (10 + (c.toNat - 0x61))
  else if 0x41 ≤ c ∧ c ≤ 0x46 then some (10 + (c.toNat - 0x41))
  else none

def octalDigit (c : UInt8) : Bool :=
  0x30 ≤ c && c ≤ 0x37

def utf8SecondByteValid (first second : UInt8) : Bool :=
  if 0xC2 ≤ first ∧ first ≤ 0xDF then 0x80 ≤ second && second ≤ 0xBF
  else if first = 0xE0 then 0xA0 ≤ second && second ≤ 0xBF
  else if (0xE1 ≤ first ∧ first ≤ 0xEC) ∨ (0xEE ≤ first ∧ first ≤ 0xEF) then 0x80 ≤ second && second ≤ 0xBF
  else if first = 0xED then 0x80 ≤ second && second ≤ 0x9F
  else if first = 0xF0 then 0x90 ≤ second && second ≤ 0xBF
  else if 0xF1 ≤ first ∧ first ≤ 0xF3 then 0x80 ≤ second && second ≤ 0xBF
  else if first = 0xF4 then 0x80 ≤ second && second ≤ 0x8F
  else false

/-- The state after the lead byte of a sequence of `need` bytes. -/
def utf8Lead (b : UInt8) (need start stop : Nat) : Utf8State :=
  { firstByte := b, need, got := 1, firstStart := start, firstStop := stop }

/-- Inside a sequence: whether `b` cannot be its next byte. -/
def utf8TailRejected (st : Utf8State) (b : UInt8) : Bool :=
  if st.got = 1 then !utf8SecondByteValid st.firstByte b else b < 0x80 || 0xBF < b

/-- One byte of decoded output, which came from the source range `[start, stop)`. -/
def utf8Feed (st : Utf8State) (b : UInt8) (start stop : Nat) : Except StringLitErr Utf8State :=
  if st.need = 0 then
    if b ≤ 0x7F then .ok st
    else if 0xC2 ≤ b ∧ b ≤ 0xDF then .ok (utf8Lead b 2 start stop)
    else if 0xE0 ≤ b ∧ b ≤ 0xEF then .ok (utf8Lead b 3 start stop)
    else if 0xF0 ≤ b ∧ b ≤ 0xF4 then .ok (utf8Lead b 4 start stop)
    else .error ⟨.INVALID_UTF8, start, stop⟩
  else if utf8TailRejected st b then .error ⟨.INVALID_UTF8, start, stop⟩
  else if st.got + 1 = st.need then .ok { st with need := 0, got := 0 }
  else .ok { st with got := st.got + 1 }

def utf8Finish (st : Utf8State) : Except StringLitErr Unit :=
  if st.need = 0 then .ok () else .error ⟨.INVALID_UTF8, st.firstStart, st.firstStop⟩

/-- One byte of an encoding: the marker bits and the bits of `rune` above `shift`. -/
def utf8Piece (mark mask rune shift : UInt32) : UInt8 :=
  (mark ||| ((rune >>> shift) &&& mask)).toUInt8

def runeToUtf8 (rune : UInt32) : Option (List UInt8) :=
  if rune ≤ 0x7F then some [rune.toUInt8]
  else if rune ≤ 0x7FF then some [utf8Piece 0xC0 0x1F rune 6, utf8Piece 0x80 0x3F rune 0]
  else if rune ≤ 0xFFFF then
    some [utf8Piece 0xE0 0x0F rune 12, utf8Piece 0x80 0x3F rune 6, utf8Piece 0x80 0x3F rune 0]
  else if rune ≤ 0x10FFFF then
    some [utf8Piece 0xF0 0x07 rune 18, utf8Piece 0x80 0x3F rune 12, utf8Piece 0x80 0x3F rune 6,
      utf8Piece 0x80 0x3F rune 0]
  else none

def hexStep (v : UInt32) (c : UInt8) : Option UInt32 :=
  (hexDigit c).map fun d => (v <<< 4) ||| UInt32.ofNat d

/-- Value of a run of hexadecimal digits, accumulated in 32 bits. -/
def decodeHex (digits : List UInt8) : Option UInt32 :=
  digits.foldlM hexStep 0

/-- What one step of the decoder consumes and produces: `len` source bytes starting at `start`
give `bytes`, and errors in these bytes are reported at `[start, stop)`. -/
structure LitItem where
  bytes : List UInt8
  start : Nat
  stop : Nat
  len : Nat
  len_pos : 0 < len

/-- A carriage return, with the line feed that may follow it. -/
def crLen (rest : List UInt8) : Nat :=
  if rest.head? = some Byte.newline then 2 else 1

theorem crLen_pos (rest : List UInt8) : 0 < crLen rest := by
  unfold crLen
  split <;> decide

/-- One item of a raw literal, at index `i`. -/
def rawItem (i : Nat) (c : UInt8) (rest : List UInt8) : LitItem :=
  if c = Byte.backslash ∧ rest.head? = some Byte.backquote then ⟨[Byte.backquote], i, i + 2, 2, by decide⟩
  else if c = Byte.carriageReturn then ⟨[Byte.newline], i, i + crLen rest, crLen rest, crLen_pos rest⟩
  else ⟨[c], i, i + 1, 1, by decide⟩

/-- The single-character escapes and the byte each one denotes. -/
def simpleEscape (c : UInt8) : Option UInt8 :=
  if c = 0x61 then some 0x07
  else if c = 0x62 then some 0x08
  else if c = 0x66 then some 0x0C
  else if c = 0x6E then some Byte.newline
  else if c = 0x72 then some Byte.carriageReturn
  else if c = 0x74 then some Byte.tab
  else if c = 0x76 then some Byte.verticalTab
  else if c = Byte.backslash ∨ c = Byte.doubleQuote ∨ c = Byte.singleQuote then some c
  else none

/-- `\xNN`. `more` is what follows the `x`, up to the closing delimiter before `stop`. -/
def hexEscape (i stop : Nat) (more : List UInt8) : Except StringLitErr LitItem :=
  match more with
  | h :: l :: _ =>
    match hexDigit h, hexDigit l with
    | some hi, some lo => .ok ⟨[UInt8.ofNat ((hi <<< 4) ||| lo)], i, i + 4, 4, by decide⟩
    | _, _ => .error ⟨.INVALID_ESCAPE, i, i + 4⟩
  | _ => .error ⟨.INVALID_ESCAPE, i, stop⟩

/-- `\uNNNN` and `\UNNNNNNNN`. -/
def unicodeEscape (i stop digits : Nat) (more : List UInt8) : Except StringLitErr LitItem :=
  if more.length < digits then .error ⟨.INVALID_ESCAPE, i, stop⟩
  else
    match decodeHex (more.take digits) with
    | none => .error ⟨.INVALID_ESCAPE, i, i + 2 + digits⟩
    | some rune =>
      if 0x10FFFF < rune ∨ (0xD800 ≤ rune ∧ rune ≤ 0xDFFF) then
        .error ⟨.INVALID_CODEPOINT, i, i + 2 + digits⟩
      else
        match runeToUtf8 rune with
        | none => .error ⟨.INVALID_CODEPOINT, i, i + 2 + digits⟩
        | some bytes => .ok ⟨bytes, i, i + 2 + digits, 2 + digits, by omega⟩

/-- `\NNN`. The value is stored in an `unsigned char`, so only its low eight bits survive. -/
def octalEscape (i : Nat) (c : UInt8) (more : List UInt8) : Except StringLitErr LitItem :=
  if !octalDigit c then .error ⟨.INVALID_ESCAPE, i, i + 2⟩
  else
    match more with
    | d :: e :: _ =>
      if octalDigit d ∧ octalDigit e then
        .ok ⟨[UInt8.ofNat (((c.toNat - 0x30) <<< 6) ||| ((d.toNat - 0x30) <<< 3) ||| (e.toNat - 0x30))],
          i, i + 4, 4, by decide⟩
      else .error ⟨.INVALID_ESCAPE, i, i + 4⟩
    | _ => .error ⟨.INVALID_ESCAPE, i, i + 4⟩

/-- The escapes that name their byte or code point by a number. -/
def numericEscape (i stop : Nat) (c : UInt8) (more : List UInt8) : Except StringLitErr LitItem :=
  if c = 0x78 then hexEscape i stop more
  else if c = 0x75 then unicodeEscape i stop 4 more
  else if c = 0x55 then unicodeEscape i stop 8 more
  else octalEscape i c more

/-- One escape of an interpreted literal. The backslash is at index `i`, `rest` follows it. -/
def escapeItem (i stop : Nat) (rest : List UInt8) : Except StringLitErr LitItem :=
  match rest with
  | [] => .error ⟨.INVALID_ESCAPE, i, i + 1⟩
  | c :: more =>
    if c = Byte.newline then .ok ⟨[], i, i + 2, 2, by decide⟩
    else if c = Byte.carriageReturn then .ok ⟨[], i, i + 1 + crLen more, 1 + crLen more, by omega⟩
    else
      match simpleEscape c with
      | some b => .ok ⟨[b], i, i + 2, 2, by decide⟩
      | none => numericEscape i stop c more

/-- One item of an interpreted literal, at index `i`. -/
def interpretedItem (i stop : Nat) (c : UInt8) (rest : List UInt8) : Except StringLitErr LitItem :=
  if c = Byte.backslash then escapeItem i stop rest
  else if c = Byte.carriageReturn then .ok ⟨[Byte.newline], i, i + crLen rest, crLen rest, crLen_pos rest⟩
  else .ok ⟨[c], i, i + 1, 1, by decide⟩

def nextItem (delim : UInt8) (i stop : Nat) (c : UInt8) (rest : List UInt8) : Except StringLitErr LitItem :=
  if delim = Byte.backquote then .ok (rawItem i c rest) else interpretedItem i stop c rest

section Emit

variable {σ : Type} (emit : σ → UInt8 → Option σ)

def emitAndValidateByte (utf8 : Utf8State) (ctx : σ) (b : UInt8) (start stop : Nat) :
    Except StringLitErr (Utf8State × σ) :=
  match utf8Feed utf8 b start stop with
  | .error err => .error err
  | .ok utf8 =>
    match emit ctx b with
    | none => .error ⟨.ARENA_OOM, start, stop⟩
    | some ctx => .ok (utf8, ctx)

def emitBytes (utf8 : Utf8State) (ctx : σ) (start stop : Nat) : List UInt8 → Except StringLitErr (Utf8State × σ)
  | [] => .ok (utf8, ctx)
  | b :: bytes =>
    match emitAndValidateByte emit utf8 ctx b start stop with
    | .error err => .error err
    | .ok (utf8, ctx) => emitBytes utf8 ctx start stop bytes

/-- The loop over the body of a literal. `body` holds the bytes from index `i` up to the closing
delimiter at `stop - 1`. -/
def decodeLoop (delim : UInt8) (stop i : Nat) (utf8 : Utf8State) (ctx : σ) (body : List UInt8) :
    Except StringLitErr (Utf8State × σ) :=
  match body with
  | [] => .ok (utf8, ctx)
  | c :: rest =>
    match nextItem delim i stop c rest with
    | .error err => .error err
    | .ok item =>
      match emitBytes emit utf8 ctx item.start item.stop item.bytes with
      | .error err => .error err
      | .ok (utf8, ctx) => decodeLoop delim stop (i + item.len) utf8 ctx ((c :: rest).drop item.len)
termination_by body.length
decreasing_by
  have positive := item.len_pos
  simp only [List.length_drop, List.length_cons]
  omega

/-- Decodes the literal at `[start, stop)`, delimiters included, handing each decoded byte to
`emit`. -/
def decodeStringLiteralImpl (ctx : σ) (src : List UInt8) (start stop : Nat) : Except StringLitErr σ :=
  if stop ≤ start + 1 then .error ⟨.UNTERMINATED, start, stop⟩
  else
    let delim := src.getD start 0
    if (delim ≠ Byte.doubleQuote ∧ delim ≠ Byte.backquote ∧ delim ≠ Byte.singleQuote) ∨
        src.getD (stop - 1) 0 ≠ delim then
      .error ⟨.UNTERMINATED, start, stop⟩
    else
      match decodeLoop emit delim stop (start + 1) {} ctx ((src.drop (start + 1)).take (stop - 1 - (start + 1))) with
      | .error err => .error err
      | .ok (utf8, ctx) =>
        match utf8Finish utf8 with
        | .error err => .error err
        | .ok () => .ok ctx

end Emit

/-- Collects the decoded bytes; allocation does not fail. -/
def byteBufEmit (out : List UInt8) (b : UInt8) : Option (List UInt8) :=
  some (out ++ [b])

def decodeStringLiteral (src : List UInt8) (start stop : Nat) : Except StringLitErr (List UInt8) :=
  decodeStringLiteralImpl byteBufEmit [] src start stop

def decodeStringLiteralValidate (src : List UInt8) (start stop : Nat) : Except StringLitErr Unit :=
  decodeStringLiteralImpl (fun ctx _ => some ctx) () src start stop

structure RuneCollector where
  rune : UInt32 := 0
  codepointCount : Nat := 0
  currentRune : UInt32 := 0
  seqNeed : Nat := 0
  seqGot : Nat := 0
  deriving DecidableEq, Repr

def runeCollectorEmit (c : RuneCollector) (b : UInt8) : Option RuneCollector :=
  if c.seqNeed = 0 then
    if b ≤ 0x7F then
      some { c with
        rune := if c.codepointCount = 0 then b.toUInt32 else c.rune
        codepointCount := c.codepointCount + 1 }
    else if 0xC2 ≤ b ∧ b ≤ 0xDF then
      some { c with seqNeed := 2, seqGot := 1, currentRune := (b &&& 0x1F).toUInt32 }
    else if 0xE0 ≤ b ∧ b ≤ 0xEF then
      some { c with seqNeed := 3, seqGot := 1, currentRune := (b &&& 0x0F).toUInt32 }
    else if 0xF0 ≤ b ∧ b ≤ 0xF4 then
      some { c with seqNeed := 4, seqGot := 1, currentRune := (b &&& 0x07).toUInt32 }
    else none
  else
    let currentRune := (c.currentRune <<< 6) ||| (b &&& 0x3F).toUInt32
    if c.seqGot + 1 = c.seqNeed then
      some { c with
        rune := if c.codepointCount = 0 then currentRune else c.rune
        codepointCount := c.codepointCount + 1
        seqNeed := 0
        seqGot := 0
        currentRune := 0 }
    else some { c with currentRune, seqGot := c.seqGot + 1 }

inductive RuneLitErrKind
  | NONE | UNTERMINATED | EMPTY | MULTIPLE_CODEPOINTS | INVALID_ESCAPE | INVALID_CODEPOINT | INVALID_UTF8
  deriving DecidableEq, Repr

structure RuneLitErr where
  kind : RuneLitErrKind
  start : Nat
  stop : Nat
  deriving DecidableEq, Repr

def runeErrOfStringErr : StringLitErrKind → RuneLitErrKind
  | .UNTERMINATED => .UNTERMINATED
  | .INVALID_ESCAPE => .INVALID_ESCAPE
  | .INVALID_CODEPOINT => .INVALID_CODEPOINT
  | .INVALID_UTF8 | .NONE | .ARENA_OOM => .INVALID_UTF8

def decodeRuneLiteralValidate (src : List UInt8) (start stop : Nat) : Except RuneLitErr UInt32 :=
  match decodeStringLiteralImpl runeCollectorEmit {} src start stop with
  | .error err => .error ⟨runeErrOfStringErr err.kind, err.start, err.stop⟩
  | .ok collector =>
    if collector.codepointCount = 0 then .error ⟨.EMPTY, start, stop⟩
    else if collector.codepointCount ≠ 1 then .error ⟨.MULTIPLE_CODEPOINTS, start, stop⟩
    else .ok collector.rune

def stringLitErrDiagCode : StringLitErrKind → DiagCode
  | .NONE => .NONE
  | .UNTERMINATED => .UNTERMINATED_STRING
  | .INVALID_ESCAPE => .INVALID_STRING_ESCAPE
  | .INVALID_CODEPOINT => .INVALID_STRING_CODEPOINT
  | .INVALID_UTF8 => .INVALID_UTF8_STRING
  | .ARENA_OOM => .ARENA_OOM

def runeLitErrDiagCode : RuneLitErrKind → DiagCode
  | .NONE => .NONE
  | .UNTERMINATED => .UNTERMINATED_RUNE
  | .EMPTY => .EMPTY_RUNE
  | .MULTIPLE_CODEPOINTS => .RUNE_CODEPOINT_COUNT
  | .INVALID_ESCAPE => .INVALID_RUNE_ESCAPE
  | .INVALID_CODEPOINT => .INVALID_RUNE_CODEPOINT
  | .INVALID_UTF8 => .INVALID_UTF8_RUNE

end HopHop
