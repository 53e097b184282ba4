import HopHop.StringLitDecode

namespace HopHop

/-- A state of the check without source ranges: `got` of the `need` bytes after lead byte `first`. -/
def pending (first : UInt8) (need got : Nat) : Utf8State :=
  { firstByte := first, need, got }

theorem feedAll_lead (first a : UInt8) (bytes : List UInt8) :
    feedAll (pending first 0 0) (a :: bytes) =
      if a.toNat ≤ 0x7F then feedAll (pending first 0 0) bytes
      else if 0xC2 ≤ a.toNat ∧ a.toNat ≤ 0xDF then feedAll (pending a 2 1) bytes
      else if 0xE0 ≤ a.toNat ∧ a.toNat ≤ 0xEF then feedAll (pending a 3 1) bytes
      else if 0xF0 ≤ a.toNat ∧ a.toNat ≤ 0xF4 then feedAll (pending a 4 1) bytes
      else none := by
  rw [feedAll_cons]
  unfold utf8Feed
  simp only [pending, if_true, UInt8.le_iff_toNat_le, UInt8.reduceToNat]
  split_ifs <;> rfl

theorem feedAll_second (a b : UInt8) {need : Nat} (longer : 2 ≤ need) (bytes : List UInt8) :
    feedAll (pending a need 1) (b :: bytes) =
      if utf8SecondByteValid a b then
        feedAll (if need = 2 then pending a 0 0 else pending a need 2) bytes
      else none := by
  rw [feedAll_cons]
  unfold utf8Feed utf8TailRejected
  simp only [pending, if_true, if_neg (show need ≠ 0 by omega), Bool.not_eq_true']
  cases valid : utf8SecondByteValid a b with
  | false => rfl
  | true =>
    by_cases two : need = 2
    · subst two
      rfl
    · have more : ¬ 1 + 1 = need := by omega
      simp only [Bool.true_eq_false, if_false, if_true, two, more]
      rfl

theorem feedAll_tail (a b : UInt8) {need got : Nat} (inside : 2 ≤ got) (unfinished : got < need)
    (bytes : List UInt8) :
    feedAll (pending a need got) (b :: bytes) =
      if 0x80 ≤ b.toNat ∧ b.toNat ≤ 0xBF then
        feedAll (if got + 1 = need then pending a 0 0 else pending a need (got + 1)) bytes
      else none := by
  rw [feedAll_cons]
  unfold utf8Feed utf8TailRejected
  simp only [pending, if_neg (show need ≠ 0 by omega), if_neg (show got ≠ 1 by omega), Bool.or_eq_true,
    decide_eq_true_eq, UInt8.lt_iff_toNat_lt, UInt8.reduceToNat]
  by_cases tail : 0x80 ≤ b.toNat ∧ b.toNat ≤ 0xBF
  · rw [if_neg (by omega), if_pos tail]
    by_cases last : got + 1 = need
    · simp only [last, if_true]
      rfl
    · simp only [last, if_false]
      rfl
  · rw [if_pos (by omega), if_neg tail]
    rfl

theorem utf8SecondByteValid_iff {a b : UInt8} (lead : 0xC2 ≤ a.toNat) (last : a.toNat ≤ 0xF4) :
    utf8SecondByteValid a b = true ↔ Utf8.IsSecond a b := by
  have same : ∀ d : UInt8, a = d ↔ a.toNat = d.toNat := fun d => UInt8.toNat_inj.symm
  rw [Utf8.isSecond_iff]
  unfold utf8SecondByteValid Utf8.IsTail
  simp only [UInt8.le_iff_toNat_le, same, UInt8.reduceToNat]
  split_ifs <;> simp only [Bool.and_eq_true, decide_eq_true_eq, false_iff] <;> omega

/-- A complete form leads from idle to idle. -/
theorem feedAll_form {form : List UInt8} (shape : Utf8.Form form) (first : UInt8) (rest : List UInt8) :
    ∃ next, feedAll (pending first 0 0) (form ++ rest) = feedAll (pending next 0 0) rest := by
  cases shape with
  | @one a bound =>
    refine ⟨first, ?_⟩
    rw [List.cons_append, feedAll_lead, if_pos bound, List.nil_append]
  | @two a b low high tail =>
    have second : Utf8.IsSecond a b := Utf8.isSecond_iff.mpr ⟨tail, by omega, by omega, by omega, by omega⟩
    refine ⟨a, ?_⟩
    rw [List.cons_append, List.cons_append, feedAll_lead, if_neg (by omega), if_pos ⟨low, high⟩,
      feedAll_second a b (Nat.le_refl 2), if_pos ((utf8SecondByteValid_iff low (by omega)).mpr second), if_pos rfl,
      List.nil_append]
  | @three a b c low high second tail =>
    obtain ⟨tailLow, tailHigh⟩ := tail
    refine ⟨a, ?_⟩
    rw [List.cons_append, List.cons_append, List.cons_append, feedAll_lead, if_neg (by omega), if_neg (by omega),
      if_pos ⟨low, high⟩, feedAll_second a b (by decide),
      if_pos ((utf8SecondByteValid_iff (by omega) (by omega)).mpr second), if_neg (show ¬ 3 = 2 by decide),
      feedAll_tail a c (show 2 ≤ 2 by decide) (by decide), if_pos ⟨tailLow, tailHigh⟩, if_pos rfl, List.nil_append]
  | @four a b c d low high second tail last =>
    obtain ⟨tailLow, tailHigh⟩ := tail
    obtain ⟨lastLow, lastHigh⟩ := last
    refine ⟨a, ?_⟩
    rw [List.cons_append, List.cons_append, List.cons_append, List.cons_append, feedAll_lead, if_neg (by omega),
      if_neg (by omega), if_neg (by omega), if_pos ⟨low, high⟩, feedAll_second a b (by decide),
      if_pos ((utf8SecondByteValid_iff (by omega) (by omega)).mpr second), if_neg (show ¬ 4 = 2 by decide),
      feedAll_tail a c (show 2 ≤ 2 by decide) (by decide), if_pos ⟨tailLow, tailHigh⟩, if_neg (show ¬ 2 + 1 = 4 by decide),
      feedAll_tail a d (show 2 ≤ 2 + 1 by decide) (by decide), if_pos ⟨lastLow, lastHigh⟩, if_pos rfl, List.nil_append]

theorem Valid.feedAll {bytes : List UInt8} (valid : Utf8.Valid bytes) (first : UInt8) :
    ∃ next, HopHop.feedAll (pending first 0 0) bytes = some (pending next 0 0) := by
  obtain ⟨text, rfl⟩ := valid
  induction text generalizing first with
  | nil => exact ⟨first, rfl⟩
  | cons c text ih =>
    obtain ⟨next, step⟩ := feedAll_form (Utf8.form_utf8EncodeChar c) first (Utf8.encode text)
    obtain ⟨final, run⟩ := ih next
    exact ⟨final, step.trans run⟩

/-- Inside a sequence at least one more byte has to come. -/
theorem feedAll_unfinished {a : UInt8} {need got : Nat} {bytes : List UInt8} {st : Utf8State}
    (inside : 0 < need) (fed : feedAll (pending a need got) bytes = some st) (idle : st.need = 0) :
    ∃ b rest, bytes = b :: rest := by
  cases bytes with
  | nil =>
    cases fed
    exact absurd idle (by simp only [pending]; omega)
  | cons b rest => exact ⟨b, rest, rfl⟩

/-- The bytes accepted by the check are valid UTF-8. The induction removes one form at a time. -/
theorem valid_of_feedAll (n : Nat) {bytes : List UInt8} (small : bytes.length ≤ n) {first : UInt8} {st : Utf8State}
    (fed : feedAll (pending first 0 0) bytes = some st) (idle : st.need = 0) : Utf8.Valid bytes := by
  induction n generalizing bytes first with
  | zero =>
    obtain rfl : bytes = [] := List.length_eq_zero_iff.mp (by omega)
    exact Utf8.valid_nil
  | succ n ih =>
    cases bytes with
    | nil => exact Utf8.valid_nil
    | cons a bytes =>
      simp only [List.length_cons] at small
      rw [feedAll_lead] at fed
      split_ifs at fed with one two three four
      · exact (Utf8.Form.one one).valid_append (ih (by omega) fed)
      · obtain ⟨b, bytes, rfl⟩ := feedAll_unfinished (by decide) fed idle
        simp only [List.length_cons] at small
        rw [feedAll_second a b (Nat.le_refl 2), if_pos rfl] at fed
        split_ifs at fed with second
        have tail := ((utf8SecondByteValid_iff two.1 (by omega)).mp second).isTail
        exact (Utf8.Form.two two.1 two.2 tail).valid_append (ih (by omega) fed)
      · obtain ⟨b, bytes, rfl⟩ := feedAll_unfinished (by decide) fed idle
        rw [feedAll_second a b (by decide), if_neg (show ¬ 3 = 2 by decide)] at fed
        split_ifs at fed with second
        obtain ⟨c, bytes, rfl⟩ := feedAll_unfinished (by decide) fed idle
        simp only [List.length_cons] at small
        rw [feedAll_tail a c (Nat.le_refl 2) (by decide), if_pos rfl] at fed
        split_ifs at fed with tail
        have second := (utf8SecondByteValid_iff (by omega) (by omega)).mp second
        exact (Utf8.Form.three three.1 three.2 second tail).valid_append (ih (by omega) fed)
      · obtain ⟨b, bytes, rfl⟩ := feedAll_unfinished (by decide) fed idle
        rw [feedAll_second a b (by decide), if_neg (show ¬ 4 = 2 by decide)] at fed
        split_ifs at fed with second
        obtain ⟨c, bytes, rfl⟩ := feedAll_unfinished (by decide) fed idle
        rw [feedAll_tail a c (Nat.le_refl 2) (by decide), if_neg (show ¬ 2 + 1 = 4 by decide)] at fed
        split_ifs at fed with tail
        obtain ⟨d, bytes, rfl⟩ := feedAll_unfinished (by decide) fed idle
        simp only [List.length_cons] at small
        rw [feedAll_tail a d (by decide) (by decide), if_pos rfl] at fed
        split_ifs at fed with last
        have second := (utf8SecondByteValid_iff (by omega) (by omega)).mp second
        exact (Utf8.Form.four four.1 four.2 second tail last).valid_append (ih (by omega) fed)

end HopHop
