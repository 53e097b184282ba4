import HopHop.StringLitExact

namespace HopHop

/-! What the rune collector makes of decoded bytes. -/

/-- The collector between sequences, after `count` code points of which the first is `rune`. -/
def RuneCollector.between (rune : UInt32) (count : Nat) : RuneCollector :=
  { rune, codepointCount := count }

/-- The collector inside a sequence. -/
def RuneCollector.inside (rune : UInt32) (count : Nat) (current : UInt32) (need got : Nat) : RuneCollector :=
  { rune, codepointCount := count, currentRune := current, seqNeed := need, seqGot := got }

/-- The rune that is kept when `next` comes after `count` others. -/
def firstRune (rune : UInt32) (count : Nat) (next : UInt32) : UInt32 :=
  if count = 0 then next else rune

/-- The collected rune with one more byte of its sequence. -/
def collected (current : UInt32) (b : UInt8) : UInt32 :=
  (current <<< 6) ||| (b &&& 0x3F).toUInt32

theorem collected_toNat (current : UInt32) (b : UInt8) (small : current.toNat < 2 ^ 26) :
    (collected current b).toNat = current.toNat * 64 + b.toNat % 64 := by
  have low : (b &&& 0x3F).toUInt32.toNat = b.toNat % 2 ^ 6 := by
    rw [UInt8.toNat_toUInt32, UInt8.toNat_and]
    exact Nat.and_two_pow_sub_one_eq_mod b.toNat 6
  have shifted : (current <<< 6).toNat = current.toNat <<< 6 := by
    rw [UInt32.toNat_shiftLeft]
    change current.toNat <<< 6 % 2 ^ 32 = current.toNat <<< 6
    rw [Nat.shiftLeft_eq]
    omega
  rw [collected, UInt32.toNat_or, low, shifted,
    ← Nat.shiftLeft_add_eq_or_of_lt (Nat.mod_lt b.toNat (by decide)), Nat.shiftLeft_eq]

theorem lead_toNat (b : UInt8) (mask : UInt8) (k : Nat) (isMask : mask.toNat = 2 ^ k - 1) :
    (b &&& mask).toUInt32.toNat = b.toNat % 2 ^ k := by
  rw [UInt8.toNat_toUInt32, UInt8.toNat_and, isMask]
  exact Nat.and_two_pow_sub_one_eq_mod b.toNat k

section Steps

variable (rune current : UInt32) (count : Nat)

theorem runeCollectorEmit_lead (a : UInt8) :
    runeCollectorEmit (.between rune count) a =
      if a.toNat ≤ 0x7F then some (.between (firstRune rune count a.toUInt32) (count + 1))
      else if 0xC2 ≤ a.toNat ∧ a.toNat ≤ 0xDF then some (.inside rune count (a &&& 0x1F).toUInt32 2 1)
      else if 0xE0 ≤ a.toNat ∧ a.toNat ≤ 0xEF then some (.inside rune count (a &&& 0x0F).toUInt32 3 1)
      else if 0xF0 ≤ a.toNat ∧ a.toNat ≤ 0xF4 then some (.inside rune count (a &&& 0x07).toUInt32 4 1)
      else none := by
  simp only [runeCollectorEmit, RuneCollector.between, if_true, UInt8.le_iff_toNat_le, UInt8.reduceToNat]
  rfl

theorem runeCollectorEmit_next (b : UInt8) {need got : Nat} (more : got + 1 < need) :
    runeCollectorEmit (.inside rune count current need got) b =
      some (.inside rune count (collected current b) need (got + 1)) := by
  have within : (RuneCollector.inside rune count current need got).seqNeed ≠ 0 := show need ≠ 0 by omega
  rw [runeCollectorEmit, if_neg within]
  exact if_neg (show ¬got + 1 = need by omega)

theorem runeCollectorEmit_last (b : UInt8) {need got : Nat} (last : got + 1 = need) :
    runeCollectorEmit (.inside rune count current need got) b =
      some (.between (firstRune rune count (collected current b)) (count + 1)) := by
  have within : (RuneCollector.inside rune count current need got).seqNeed ≠ 0 := show need ≠ 0 by omega
  rw [runeCollectorEmit, if_neg within]
  exact if_pos last

end Steps

/-- The encoding of a scalar value is collected as this value. -/
theorem foldlM_utf8EncodeChar (r : Char) (rune : UInt32) (count : Nat) :
    (String.utf8EncodeChar r).foldlM runeCollectorEmit (.between rune count) =
      some (.between (firstRune rune count r.val) (count + 1)) := by
  have range := Utf8.char_range r
  have exact_ : ∀ c : UInt32, c.toNat = r.val.toNat → c = r.val := fun c same => UInt32.toNat_inj.mp same
  unfold String.utf8EncodeChar
  generalize number : r.val.toNat = v at range exact_
  simp only
  split_ifs with one two three
  · have lead := Utf8.toNat_ofNat_small (v := v) (by omega)
    rw [List.foldlM_cons, runeCollectorEmit_lead, if_pos (by omega), exact_
      (UInt8.ofNat v).toUInt32 (by rw [UInt8.toNat_toUInt32, lead])]
    rfl
  · have lead := Utf8.toNat_ofNat_small (show v / 64 % 32 + 192 < 256 by omega)
    have last := Utf8.toNat_ofNat_small (show v % 64 + 128 < 256 by omega)
    have high := lead_toNat (UInt8.ofNat (v / 64 % 32 + 192)) 0x1F 5 rfl
    have value := collected_toNat ((UInt8.ofNat (v / 64 % 32 + 192) &&& 0x1F).toUInt32)
      (UInt8.ofNat (v % 64 + 128)) (by omega)
    have whole := exact_ _ (value.trans (by omega))
    simp only [List.foldlM_cons, List.foldlM_nil]
    rw [runeCollectorEmit_lead, if_neg (by omega), if_pos (by omega)]
    simp only [Option.bind_eq_bind, Option.bind_some]
    rw [runeCollectorEmit_last _ _ _ _ rfl, whole]
    rfl
  · have lead := Utf8.toNat_ofNat_small (show v / 4096 % 16 + 224 < 256 by omega)
    have second := Utf8.toNat_ofNat_small (show v / 64 % 64 + 128 < 256 by omega)
    have last := Utf8.toNat_ofNat_small (show v % 64 + 128 < 256 by omega)
    have high := lead_toNat (UInt8.ofNat (v / 4096 % 16 + 224)) 0x0F 4 rfl
    have middle := collected_toNat ((UInt8.ofNat (v / 4096 % 16 + 224) &&& 0x0F).toUInt32)
      (UInt8.ofNat (v / 64 % 64 + 128)) (by omega)
    have value := collected_toNat (collected (UInt8.ofNat (v / 4096 % 16 + 224) &&& 0x0F).toUInt32
      (UInt8.ofNat (v / 64 % 64 + 128))) (UInt8.ofNat (v % 64 + 128)) (by omega)
    have whole := exact_ _ (value.trans (by omega))
    simp only [List.foldlM_cons, List.foldlM_nil]
    rw [runeCollectorEmit_lead, if_neg (by omega), if_neg (by omega), if_pos (by omega)]
    simp only [Option.bind_eq_bind, Option.bind_some]
    rw [runeCollectorEmit_next _ _ _ _ (by decide), Option.bind_some, runeCollectorEmit_last _ _ _ _ rfl, whole]
    rfl
  · have lead := Utf8.toNat_ofNat_small (show v / 262144 % 8 + 240 < 256 by omega)
    have second := Utf8.toNat_ofNat_small (show v / 4096 % 64 + 128 < 256 by omega)
    have third := Utf8.toNat_ofNat_small (show v / 64 % 64 + 128 < 256 by omega)
    have last := Utf8.toNat_ofNat_small (show v % 64 + 128 < 256 by omega)
    have high := lead_toNat (UInt8.ofNat (v / 262144 % 8 + 240)) 0x07 3 rfl
    have afterSecond := collected_toNat ((UInt8.ofNat (v / 262144 % 8 + 240) &&& 0x07).toUInt32)
      (UInt8.ofNat (v / 4096 % 64 + 128)) (by omega)
    have afterThird := collected_toNat
      (collected (UInt8.ofNat (v / 262144 % 8 + 240) &&& 0x07).toUInt32 (UInt8.ofNat (v / 4096 % 64 + 128)))
      (UInt8.ofNat (v / 64 % 64 + 128)) (by omega)
    have value := collected_toNat (collected (collected (UInt8.ofNat (v / 262144 % 8 + 240) &&& 0x07).toUInt32
        (UInt8.ofNat (v / 4096 % 64 + 128))) (UInt8.ofNat (v / 64 % 64 + 128)))
      (UInt8.ofNat (v % 64 + 128)) (by omega)
    have whole := exact_ _ (value.trans (by omega))
    simp only [List.foldlM_cons, List.foldlM_nil]
    rw [runeCollectorEmit_lead, if_neg (by omega), if_neg (by omega), if_neg (by omega), if_pos (by omega)]
    simp only [Option.bind_eq_bind, Option.bind_some]
    rw [runeCollectorEmit_next _ _ _ _ (by decide), Option.bind_some, runeCollectorEmit_next _ _ _ _ (by decide),
      Option.bind_some, runeCollectorEmit_last _ _ _ _ rfl, whole]
    rfl

/-- Of a text the collector keeps the first scalar value and the number of all. -/
theorem foldlM_encode (text : List Char) (rune : UInt32) (count : Nat) :
    (Utf8.encode text).foldlM runeCollectorEmit (.between rune count) =
      some (.between (firstRune rune count ((text.head?.map Char.val).getD rune)) (count + text.length)) := by
  induction text generalizing rune count with
  | nil =>
    rw [List.head?_nil, Option.map_none, Option.getD_none, firstRune, ite_self]
    rfl
  | cons c text ih =>
    rw [show Utf8.encode (c :: text) = String.utf8EncodeChar c ++ Utf8.encode text from rfl, List.foldlM_append,
      foldlM_utf8EncodeChar]
    change (Utf8.encode text).foldlM runeCollectorEmit _ = _
    rw [ih, firstRune, if_neg (Nat.succ_ne_zero count), List.head?_cons, Option.map_some, Option.getD_some,
      List.length_cons, Nat.add_right_comm, Nat.add_assoc count text.length 1]

theorem utf8Encode_singleton (r : Char) : Utf8.encode [r] = String.utf8EncodeChar r := by
  rw [Utf8.encode, List.flatMap_singleton]

/-- Emitting accepted bytes succeeds, whatever ranges of the source they come from. -/
theorem emitBytes_total {σ : Type} (emit : σ → UInt8 → Option σ) {ctx ctx' : σ} {bytes : List UInt8}
    {st : Utf8State} (fed : feedAll {} bytes = some st) (total : bytes.foldlM emit ctx = some ctx') (start stop : Nat) :
    ∃ utf8, emitBytes emit {} ctx start stop bytes = .ok (utf8, ctx') ∧ utf8.forget = st := by
  have both := emitBytes_eq emit {} ctx start stop bytes
  rw [show ({} : Utf8State).forget = {} from rfl, fed, Option.bind_some, total, Option.map_some] at both
  obtain ⟨⟨utf8, out⟩, emitted, same⟩ := Option.map_eq_some_iff.mp both
  cases same
  cases run : emitBytes emit {} ctx start stop bytes with
  | error err =>
    rw [run] at emitted
    cases emitted
  | ok result =>
    rw [run] at emitted
    cases emitted
    exact ⟨utf8, rfl, rfl⟩

/-- What one emitter is handed by the decoder, another one is handed as well. -/
theorem decodeStringLiteralImpl_emits {σ τ : Type} {emit : σ → UInt8 → Option σ}
    (other : τ → UInt8 → Option τ) {ctx ctx' : σ} {src : List UInt8} {start stop : Nat}
    (run : decodeStringLiteralImpl emit ctx src start stop = .ok ctx') :
    ∃ out, Utf8.Valid out ∧ out.foldlM emit ctx = some ctx' ∧ ∀ init final, out.foldlM other init = some final →
      decodeStringLiteralImpl other init src start stop = .ok final := by
  unfold decodeStringLiteralImpl at run
  by_cases short : stop ≤ start + 1
  · rw [if_pos short] at run
    cases run
  · rw [if_neg short] at run
    dsimp only at run
    split at run
    next => cases run
    next quoted =>
      split at run
      next => cases run
      next utf8 ctx₁ loop =>
        split at run
        next => cases run
        next finish =>
          cases run
          obtain ⟨out, denotes, fed, total⟩ := decodeLoop_sound emit _ _ _ _ _ _ loop
          have idle : utf8.need = 0 := by
            unfold utf8Finish at finish
            by_contra busy
            rw [if_neg busy] at finish
            cases finish
          refine ⟨out, valid_of_feedAll _ (Nat.le_refl _) fed idle, total, ?_⟩
          intro init final handed
          obtain ⟨utf8', loop', same⟩ := decodeLoop_complete other _ _ denotes (start + 1) {} init fed handed
          have need : utf8'.need = 0 := (congrArg Utf8State.need same).trans idle
          rw [decodeStringLiteralImpl, if_neg short]
          dsimp only
          rw [if_neg quoted, loop']
          dsimp only
          rw [utf8Finish, if_pos need]

theorem foldlM_one (r : Char) : (String.utf8EncodeChar r).foldlM runeCollectorEmit {} = some (.between r.val 1) :=
  foldlM_utf8EncodeChar r 0 0

/-- A collector that counts one code point was handed the encoding of one scalar value. -/
theorem exists_of_count_one {out : List UInt8} (valid : Utf8.Valid out) {collector : RuneCollector}
    (total : out.foldlM runeCollectorEmit {} = some collector) (one : collector.codepointCount = 1) :
    ∃ r : Char, out = String.utf8EncodeChar r ∧ collector.rune = r.val := by
  obtain ⟨text, rfl⟩ := valid
  rw [show ({} : RuneCollector) = .between 0 0 from rfl, foldlM_encode, Option.some.injEq] at total
  subst total
  have single : text.length = 1 := (Nat.zero_add _).symm.trans one
  obtain ⟨r, rfl⟩ := List.length_eq_one_iff.mp single
  exact ⟨r, utf8Encode_singleton r, rfl⟩

/-- A rune literal is accepted with exactly the scalar value whose encoding its bytes are; the encoder, the check
and the collector agree on every scalar value, however the items of a literal split its bytes. -/
theorem decodeRuneLiteralValidate_scalar :
    (∀ (src : List UInt8) (start stop : Nat) (rune : UInt32),
      decodeRuneLiteralValidate src start stop = .ok rune ↔
        ∃ r : Char, decodeStringLiteral src start stop = .ok (String.utf8EncodeChar r) ∧ rune = r.val) ∧
    (∀ r : Char, ∃ bytes, runeToUtf8 r.val = some bytes ∧ bytes = String.utf8EncodeChar r ∧
      ∀ start stop, ∃ utf8 collector, emitBytes runeCollectorEmit {} {} start stop bytes = .ok (utf8, collector) ∧
        utf8.need = 0 ∧ collector.codepointCount = 1 ∧ collector.rune = r.val) ∧
    ∀ (r : Char) (delim : UInt8) (body : List UInt8) (i stop : Nat),
      Denotes octalLimit delim body (String.utf8EncodeChar r) →
        ∃ utf8 collector, decodeLoop runeCollectorEmit delim stop i {} {} body = .ok (utf8, collector) ∧
          utf8.need = 0 ∧ collector.codepointCount = 1 ∧ collector.rune = r.val := by
  refine ⟨?_, ?_, ?_⟩
  · intro src start stop rune
    constructor
    · intro run
      unfold decodeRuneLiteralValidate at run
      cases decoded : decodeStringLiteralImpl runeCollectorEmit {} src start stop with
      | error err =>
        rw [decoded] at run
        cases run
      | ok collector =>
        rw [decoded] at run
        dsimp only at run
        by_cases empty : collector.codepointCount = 0
        · rw [if_pos empty] at run
          cases run
        · rw [if_neg empty] at run
          by_cases many : collector.codepointCount ≠ 1
          · rw [if_pos many] at run
            cases run
          · rw [if_neg many] at run
            cases run
            obtain ⟨out, valid, total, handed⟩ := decodeStringLiteralImpl_emits byteBufEmit decoded
            obtain ⟨r, rfl, value⟩ := exists_of_count_one valid total (not_not.mp many)
            exact ⟨r, handed [] _ (foldlM_byteBufEmit _ _), value⟩
    · rintro ⟨r, decoded, rfl⟩
      obtain ⟨out, -, total, handed⟩ := decodeStringLiteralImpl_emits runeCollectorEmit decoded
      rw [foldlM_byteBufEmit, List.nil_append, Option.some.injEq] at total
      subst total
      rw [decodeRuneLiteralValidate, handed {} _ (foldlM_one r)]
      rfl
  · intro r
    refine ⟨_, runeToUtf8_char r, rfl, ?_⟩
    intro start stop
    obtain ⟨next, fed⟩ := Valid.feedAll ⟨[r], (utf8Encode_singleton r).symm⟩ 0
    obtain ⟨utf8, emitted, idle⟩ := emitBytes_total runeCollectorEmit fed (foldlM_one r) start stop
    exact ⟨utf8, _, emitted, congrArg Utf8State.need idle, rfl, rfl⟩
  · intro r delim body i stop denotes
    obtain ⟨next, fed⟩ := Valid.feedAll ⟨[r], (utf8Encode_singleton r).symm⟩ 0
    obtain ⟨utf8, run, idle⟩ :=
      decodeLoop_complete runeCollectorEmit delim stop denotes i {} {} fed (foldlM_one r)
    exact ⟨utf8, _, run, congrArg Utf8State.need idle, rfl, rfl⟩

/-- `'\xC3\251'` is the rune of `é`, and the body `A` holds that of `A`. -/
theorem decodeRuneLiteralValidate_samples :
    decodeRuneLiteralValidate (bytesOf "'\\xC3\\251'") 0 10 = .ok 0xE9 ∧
      ∃ utf8 collector, decodeLoop runeCollectorEmit Byte.singleQuote 3 1 {} {} [0x41] = .ok (utf8, collector) ∧
        utf8.need = 0 ∧ collector.codepointCount = 1 ∧ collector.rune = 0x41 := by
  have plain : GrammarItem octalLimit Byte.singleQuote [0x41] [0x41] [] := by
    rw [GrammarItem, if_neg (by decide)]
    exact .plain (by decide) (by decide) (by decide)
  exact ⟨(decodeRuneLiteralValidate_scalar.1 _ _ _ _).mpr ⟨'é', by decide +kernel, rfl⟩,
    decodeRuneLiteralValidate_scalar.2.2 'A' _ _ _ _ (.cons plain .nil)⟩

end HopHop
