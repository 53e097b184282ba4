import HopHop.LexerGap

namespace HopHop

theorem quotedLen_le_length {quote : UInt8} {rest : List UInt8} {n : Nat} (run : quotedLen quote rest = some n) :
    n ≤ rest.length := by
  fun_induction quotedLen quote rest generalizing n with
  | case1 => cases run; exact Nat.le_refl _
  | case2 rest => cases run; simp
  | case3 => cases run
  | case4 d more crlf quoted ih =>
    obtain ⟨m, inner, rfl⟩ := Option.map_eq_some_iff.mp run
    have shorter := ih inner
    obtain ⟨_, follows⟩ := crlf
    cases more with
    | nil => cases follows
    | cons e more =>
      simp only [List.tail_cons] at shorter
      simp only [List.length_cons]
      omega
  | case5 d more crlf quoted ih =>
    obtain ⟨m, inner, rfl⟩ := Option.map_eq_some_iff.mp run
    have shorter := ih inner
    simp only [List.length_cons]
    omega
  | case6 c rest quoted escape ih =>
    obtain ⟨m, inner, rfl⟩ := Option.map_eq_some_iff.mp run
    have shorter := ih inner
    simp only [List.length_cons]
    omega

theorem rawLen_le_length (rest : List UInt8) : rawLen rest ≤ rest.length := by
  fun_induction rawLen rest with
  | case1 => exact Nat.le_refl _
  | case2 c rest escaped ih =>
    obtain ⟨_, follows⟩ := escaped
    cases rest with
    | nil => cases follows
    | cons d rest =>
      simp only [List.tail_cons] at ih
      simp only [List.length_cons, List.tail_cons]
      omega
  | case3 => simp
  | case4 c rest escaped quote ih =>
    simp only [List.length_cons]
    omega

/-- A scanned token stays inside the source and is not the end marker. -/
def Scanned.Fits (s : Scanned) (tail : List UInt8) : Prop :=
  s.more ≤ tail.length ∧ s.kind ≠ .EOF

theorem ite_ne_eof {c : Prop} [Decidable c] {a b : TokenKind} (yes : a ≠ .EOF) (no : b ≠ .EOF) :
    (if c then a else b) ≠ .EOF := by
  split
  · exact yes
  · exact no

theorem keywordKind_ne_eof (s : List UInt8) : keywordKind s ≠ .EOF := by
  unfold keywordKind
  iterate 30 refine ite_ne_eof nofun ?_
  exact nofun

theorem scanIdent_fits (c : UInt8) (tail : List UInt8) : (scanIdent c tail).Fits tail :=
  ⟨spanLen_le_length _ _, keywordKind_ne_eof _⟩

theorem fractionLen_le_length (rest : List UInt8) : fractionLen rest ≤ rest.length := by
  unfold fractionLen
  split
  next dot =>
    have digits := spanLen_le_length isDigit rest.tail
    cases rest with
    | nil => cases dot
    | cons c rest =>
      simp only [List.tail_cons] at digits
      simp only [List.length_cons, List.tail_cons]
      omega
  next => exact Nat.zero_le _

theorem exponentLen_le_length {rest : List UInt8} {n : Nat} (run : exponentLen rest = .ok n) : n ≤ rest.length := by
  unfold exponentLen at run
  split at run
  next mark =>
    generalize sign : (if isSign rest.tail.head? then 1 else 0) = more at run
    have digits := spanLen_le_length isDigit (rest.drop (1 + more))
    simp only [List.length_drop] at digits
    by_cases empty : spanLen isDigit (rest.drop (1 + more)) = 0
    · simp only [empty, if_true] at run
      cases run
    · simp only [if_neg empty] at run
      cases run
      omega
  next =>
    cases run
    exact Nat.zero_le _

theorem scanNumber_fits {start : Nat} {c : UInt8} {tail : List UInt8} {s : Scanned}
    (run : scanNumber start c tail = .ok s) : s.Fits tail := by
  unfold scanNumber at run
  split at run
  next hex =>
    simp only at run
    split at run
    next => cases run
    next =>
      cases run
      have digits := spanLen_le_length isHexDigit tail.tail
      obtain ⟨_, mark⟩ := hex
      cases tail with
      | nil => cases mark
      | cons d tail =>
        simp only [List.tail_cons] at digits
        refine ⟨?_, nofun⟩
        simp only [List.length_cons, List.tail_cons]
        omega
  next =>
    simp only at run
    split at run
    next => cases run
    next exponent ends =>
      cases run
      have whole := spanLen_le_length isDigit tail
      have fraction := fractionLen_le_length (tail.drop (spanLen isDigit tail))
      have last := exponentLen_le_length ends
      simp only [List.length_drop] at fraction last
      refine ⟨?_, ?_⟩
      · change spanLen isDigit tail + fractionLen (tail.drop (spanLen isDigit tail)) + exponent ≤ tail.length
        omega
      · change (if _ then TokenKind.INT else TokenKind.FLOAT) ≠ .EOF
        split <;> decide

theorem scanRune_fits {src : List UInt8} {start : Nat} {c : UInt8} {tail : List UInt8} {s : Scanned}
    (run : scanRune src start c tail = .ok s) : s.Fits tail := by
  unfold scanRune at run
  split at run
  next => cases run
  next n text =>
    split at run
    next => cases run
    next =>
      split at run
      next => cases run
      next =>
        cases run
        exact ⟨quotedLen_le_length text, nofun⟩

theorem scanString_fits {src : List UInt8} {start : Nat} {c : UInt8} {tail : List UInt8} {s : Scanned}
    (run : scanString src start c tail = .ok s) : s.Fits tail := by
  unfold scanString at run
  split at run
  next => cases run
  next n text =>
    split at run
    next => cases run
    next =>
      split at run
      next => cases run
      next =>
        cases run
        refine ⟨?_, nofun⟩
        split at text
        next =>
          cases text
          exact rawLen_le_length tail
        next => exact quotedLen_le_length text

theorem withAssign_fits {plain assign : TokenKind} (tail : List UInt8) (kinds : plain ≠ .EOF ∧ assign ≠ .EOF) :
    (withAssign plain assign tail).Fits tail := by
  unfold withAssign
  split
  next follows =>
    cases tail with
    | nil => cases follows
    | cons d tail => exact ⟨by simp, kinds.2⟩
  next => exact ⟨Nat.zero_le _, kinds.1⟩

theorem withDouble_fits {c : UInt8} {plain double assign : TokenKind} (tail : List UInt8)
    (kinds : plain ≠ .EOF ∧ double ≠ .EOF ∧ assign ≠ .EOF) : (withDouble c plain double assign tail).Fits tail := by
  unfold withDouble
  split
  next follows =>
    cases tail with
    | nil => cases follows
    | cons d tail => exact ⟨by simp, kinds.2.1⟩
  next => exact withAssign_fits tail ⟨kinds.1, kinds.2.2⟩

theorem withShift_fits {c : UInt8} {plain assign shift shiftAssign : TokenKind} (tail : List UInt8)
    (kinds : plain ≠ .EOF ∧ assign ≠ .EOF) (shifts : shift ≠ .EOF ∧ shiftAssign ≠ .EOF) :
    (withShift c plain assign shift shiftAssign tail).Fits tail := by
  unfold withShift
  split
  next follows =>
    cases tail with
    | nil => cases follows
    | cons d tail =>
      split
      next follows' =>
        cases tail with
        | nil => cases follows'
        | cons e tail => exact ⟨by simp, shifts.2⟩
      next => exact ⟨by simp, shifts.1⟩
  next => exact withAssign_fits tail kinds

theorem dots_fit {tail : List UInt8} (dots : tail.head? = some Byte.dot ∧ tail.tail.head? = some Byte.dot) :
    2 ≤ tail.length := by
  obtain ⟨first, second⟩ := dots
  match tail, first, second with
  | _ :: _ :: _, _, _ => simp

/-- The punctuation table is walked entry by entry. -/
theorem ok_or_else {property : Scanned → Prop} {p : Prop} [Decidable p] {a b : Except Diag Scanned}
    (yes : p → ∀ s, a = .ok s → property s) (no : ∀ s, b = .ok s → property s) :
    ∀ s, (if p then a else b) = .ok s → property s := by
  intro s run
  by_cases holds : p
  · rw [if_pos holds] at run
    exact yes holds s run
  · rw [if_neg holds] at run
    exact no s run

theorem ok_of {property : Scanned → Prop} {found : Scanned} (holds : property found) :
    ∀ s, (.ok found : Except Diag Scanned) = .ok s → property s := by
  intro s run
  cases run
  exact holds

theorem scanPunct_fits {start : Nat} {c : UInt8} {tail : List UInt8} :
    ∀ s, scanPunct start c tail = .ok s → s.Fits tail := by
  have single {kind : TokenKind} (other : kind ≠ .EOF) : Scanned.Fits ⟨kind, 0⟩ tail := ⟨Nat.zero_le _, other⟩
  unfold scanPunct
  iterate 7 refine ok_or_else (fun _ => ok_of (single nofun)) ?_
  refine ok_or_else (fun _ => ok_or_else (fun dots => ok_of ⟨dots_fit dots, nofun⟩)
    (ok_of (single nofun))) ?_
  refine ok_or_else (fun _ => ok_of (single nofun)) ?_
  refine ok_or_else (fun _ => ok_of (withAssign_fits tail ⟨nofun, nofun⟩)) ?_
  refine ok_or_else (fun _ => ok_of (single nofun)) ?_
  iterate 5 refine ok_or_else (fun _ => ok_of (withAssign_fits tail ⟨nofun, nofun⟩)) ?_
  iterate 2 refine ok_or_else (fun _ => ok_of (withDouble_fits tail ⟨nofun, nofun, nofun⟩)) ?_
  refine ok_or_else (fun _ => ok_of (withAssign_fits tail ⟨nofun, nofun⟩)) ?_
  refine ok_or_else (fun _ => ok_of (single nofun)) ?_
  iterate 2 refine ok_or_else (fun _ => ok_of (withAssign_fits tail ⟨nofun, nofun⟩)) ?_
  iterate 2 refine ok_or_else (fun _ => ok_of (withShift_fits tail ⟨nofun, nofun⟩ ⟨nofun, nofun⟩)) ?_
  exact nofun

theorem scanToken_fits {src : List UInt8} {start : Nat} {c : UInt8} {tail : List UInt8} {s : Scanned}
    (run : scanToken src start c tail = .ok s) : s.Fits tail := by
  unfold scanToken at run
  split_ifs at run
  · cases run
    exact scanIdent_fits c tail
  · exact scanNumber_fits run
  · exact scanRune_fits run
  · exact scanString_fits run
  · exact scanPunct_fits s run

end HopHop
