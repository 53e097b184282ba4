import HopHop.CTFEEquality
import HopHop.MirBounds

namespace HopHop

section

variable {σ : Type} (m : Machine σ)

/-- What the two comparisons make of the truth of an equality. -/
def truthOf (op : TokenKind) (equal : Bool) : Bool := if op = .EQ then equal else !equal

/-- The equality of two operands that are not unwrapped any further, where it is decided. -/
def flatTruth (lhs rhs : CTFEValue) (s : σ) : Option Bool :=
  if lhs.kind = .OPTIONAL ∧ rhs.kind = .OPTIONAL then some (valueEqRec m 33 lhs rhs s)
  else if lhs.kind = .OPTIONAL ∧ rhs.kind = .NULL then some (lhs.b = 0)
  else if lhs.kind = .NULL ∧ rhs.kind = .OPTIONAL then some (rhs.b = 0)
  else lhs.plain.eq m s rhs.plain

variable {hook : Option (BinaryHook σ)}

theorem Exec.run_get (s : σ) : (get : Exec σ σ) s = .ok s s := rfl

theorem Exec.run_notConst {α : Type} (s : σ) : (Exec.notConst : Exec σ α) s = .error .notConst s := rfl

theorem evalBinaryFlat_compares {op : TokenKind} (compares : op = .EQ ∨ op = .NEQ) {lhs rhs : CTFEValue} {s : σ}
    (silent : lhs.kind = .TYPE ∧ rhs.kind = .TYPE ∨ flatTruth m lhs rhs s = none →
      askBinary hook op lhs rhs s = .ok none s) : evalBinaryFlat m hook op lhs rhs s =
      match flatTruth m lhs rhs s with
      | some equal => .ok (.bool (truthOf op equal)) s
      | none => .error .notConst s := by
  unfold flatTruth CTFEValue.plain at silent
  unfold evalBinaryFlat flatTruth CTFEValue.plain
  rcases compares with rfl | rfl <;> cases left : lhs.kind <;> cases right : rhs.kind <;>
    simp [left, right, PlainValue.eq] at silent <;>
    simp [PlainValue.eq, evalBinaryInt, evalBinaryBool, evalBinaryFloat, evalBinaryString,
      evalBinaryNull, truthOf, CTFEValue.toF64, bne, pure, EStateM.pure, bind, EStateM.bind, Exec.run_get,
      Exec.run_notConst, *]

/-- What an equality comes to: two optionals are compared as wholes, an optional and null by its flag, and otherwise
the plain values below them. -/
inductive Equals (s : σ) : CTFEValue → CTFEValue → Bool → Prop
  | optionals {a b : CTFEValue} (left : a.kind = .OPTIONAL) (right : b.kind = .OPTIONAL) :
      Equals s a b (valueEqRec m 33 a b s)
  | optionalNull {a b : CTFEValue} (left : a.kind = .OPTIONAL) (right : b.kind = .NULL) : Equals s a b (a.b = 0)
  | nullOptional {a b : CTFEValue} (left : a.kind = .NULL) (right : b.kind = .OPTIONAL) : Equals s a b (b.b = 0)
  | plain {a b x y : CTFEValue} {d e : Nat} {equal : Bool}
      (left : a.kind = .OPTIONAL → b.kind ≠ .OPTIONAL ∧ b.kind ≠ .NULL)
      (right : b.kind = .OPTIONAL → a.kind ≠ .OPTIONAL ∧ a.kind ≠ .NULL)
      (below : Core m s a d x) (below' : Core m s b e y) (decided : x.plain.eq m s y.plain = some equal) :
      Equals s a b equal

variable {m} {s : σ}

theorem Equals.symm {a b : CTFEValue} {equal : Bool} (equals : Equals m s a b equal) : Equals m s b a equal := by
  cases equals with
  | optionals left right =>
    rw [valueEqRec_symm]
    exact .optionals right left
  | optionalNull left right => exact .nullOptional right left
  | nullOptional left right => exact .optionalNull right left
  | plain left right below below' decided =>
    rw [PlainValue.eq_symm] at decided
    exact .plain right left below' below decided

/-- An equality comes to one truth value. -/
theorem Equals.unique {a b : CTFEValue} {p q : Bool} (left : Equals m s a b p) (right : Equals m s a b q) :
    p = q := by
  cases left with
  | optionals l r =>
    cases right with
    | optionals => rfl
    | optionalNull _ r' => exact absurd (r.symm.trans r') (by decide)
    | nullOptional l' _ => exact absurd (l.symm.trans l') (by decide)
    | plain l' => exact absurd r (l' l).1
  | optionalNull l r =>
    cases right with
    | optionals _ r' => exact absurd (r.symm.trans r') (by decide)
    | optionalNull => rfl
    | nullOptional l' _ => exact absurd (l.symm.trans l') (by decide)
    | plain l' => exact absurd r (l' l).2
  | nullOptional l r =>
    cases right with
    | optionals l' _ => exact absurd (l.symm.trans l') (by decide)
    | optionalNull l' _ => exact absurd (l.symm.trans l') (by decide)
    | nullOptional => rfl
    | plain _ r' => exact absurd l (r' r).2
  | plain l r below below' decided =>
    cases right with
    | optionals l' r' => exact absurd r' (l l').1
    | optionalNull l' r' => exact absurd r' (l l').2
    | nullOptional l' r' => exact absurd l' (r r').2
    | plain _ _ below₂ below₂' decided₂ =>
      obtain ⟨-, rfl⟩ := below.unique below₂
      obtain ⟨-, rfl⟩ := below'.unique below₂'
      exact Option.some.inj (decided.symm.trans decided₂)

variable (m s)

/-- The operator yields a BOOL of this truth value. -/
def YieldsBool (hook : Option (BinaryHook σ)) (op : TokenKind) (lhs rhs : CTFEValue) (truth : Bool) : Prop :=
  ∃ fuel v s', evalBinary m hook op fuel lhs rhs s = .ok v s' ∧ v.kind = .BOOL ∧ truth = decide (v.b ≠ 0)

/-- The callback leaves a comparison to the interpreter: where it is asked about the plain values below the
operands, it has no answer. -/
def LeftAlone (hook : Option (BinaryHook σ)) (op : TokenKind) (lhs rhs : CTFEValue) : Prop :=
  ∀ x y d e, (lhs.kind = .OPTIONAL → rhs.kind ≠ .OPTIONAL ∧ rhs.kind ≠ .NULL) →
    (rhs.kind = .OPTIONAL → lhs.kind ≠ .OPTIONAL ∧ lhs.kind ≠ .NULL) → Core m s lhs d x → Core m s rhs e y →
    x.kind = .TYPE ∧ y.kind = .TYPE ∨ x.plain.eq m s y.plain = none → askBinary hook op x y s = .ok none s

theorem LeftAlone.unwrap_left {op : TokenKind} {lhs rhs : CTFEValue} {p : Ptr} (alone : LeftAlone m s hook op lhs rhs)
    (payload : optionalPayload lhs = some (some p)) (notOptional : rhs.kind ≠ .OPTIONAL)
    (notNull : rhs.kind ≠ .NULL) : LeftAlone m s hook op (m.loadValue p s) rhs :=
  fun x y d e _ _ below below' => alone x y (d + 1) e (fun _ => ⟨notOptional, notNull⟩)
    (fun optional => absurd optional notOptional) (.inner payload below) below'

theorem LeftAlone.unwrap_right {op : TokenKind} {lhs rhs : CTFEValue} {p : Ptr}
    (alone : LeftAlone m s hook op lhs rhs) (payload : optionalPayload rhs = some (some p))
    (notOptional : lhs.kind ≠ .OPTIONAL) (notNull : lhs.kind ≠ .NULL) :
    LeftAlone m s hook op lhs (m.loadValue p s) :=
  fun x y d e _ _ below below' => alone x y d (e + 1) (fun optional => absurd optional notOptional)
    (fun _ => ⟨notOptional, notNull⟩) below (.inner payload below')

/-- A callback that is left alone has no answer where the operands are not unwrapped any further. -/
theorem LeftAlone.silent {op : TokenKind} {lhs rhs : CTFEValue} (alone : LeftAlone m s hook op lhs rhs)
    (left : ¬(lhs.kind = .OPTIONAL ∧ rhs.kind ≠ .OPTIONAL ∧ rhs.kind ≠ .NULL))
    (right : ¬(rhs.kind = .OPTIONAL ∧ lhs.kind ≠ .OPTIONAL ∧ lhs.kind ≠ .NULL))
    (asked : lhs.kind = .TYPE ∧ rhs.kind = .TYPE ∨ flatTruth m lhs rhs s = none) :
    askBinary hook op lhs rhs s = .ok none s := by
  have plain : lhs.kind ≠ .OPTIONAL ∧ rhs.kind ≠ .OPTIONAL ∧
      (lhs.kind = .TYPE ∧ rhs.kind = .TYPE ∨ lhs.plain.eq m s rhs.plain = none) := by
    unfold flatTruth at asked
    grind
  exact alone lhs rhs 0 0 (fun optional => absurd optional plain.1) (fun optional => absurd optional plain.2.1)
    (.here plain.1) (.here plain.2.1) plain.2.2

theorem evalBinary_flat (op : TokenKind) (fuel : Nat) {lhs rhs : CTFEValue}
    (left : ¬(lhs.kind = .OPTIONAL ∧ rhs.kind ≠ .OPTIONAL ∧ rhs.kind ≠ .NULL))
    (right : ¬(rhs.kind = .OPTIONAL ∧ lhs.kind ≠ .OPTIONAL ∧ lhs.kind ≠ .NULL)) :
    evalBinary m hook op fuel lhs rhs = evalBinaryFlat m hook op lhs rhs := by
  rw [evalBinary.eq_def]
  dsimp only
  rw [if_neg left, if_neg right]

/-- With a bound of its depth the left operand is unwrapped to the plain value below it. -/
theorem evalBinary_left (op : TokenKind) {lhs rhs x : CTFEValue} {d : Nat} (below : Core m s lhs d x)
    (notOptional : rhs.kind ≠ .OPTIONAL) (notNull : rhs.kind ≠ .NULL) :
    evalBinary m hook op d lhs rhs s = evalBinaryFlat m hook op x rhs s := by
  induction below with
  | here plain =>
    rw [evalBinary_flat m op 0 (fun unwraps => plain unwraps.1) fun unwraps => notOptional unwraps.1]
  | inner payload rest ih =>
    rw [evalBinary.eq_def]
    dsimp only
    rw [if_pos ⟨(optionalPayload_some.mp payload).1, notOptional, notNull⟩, payload]
    exact ih

theorem evalBinary_right (op : TokenKind) {lhs rhs y : CTFEValue} {e : Nat} (below : Core m s rhs e y)
    (notOptional : lhs.kind ≠ .OPTIONAL) (notNull : lhs.kind ≠ .NULL) :
    evalBinary m hook op e lhs rhs s = evalBinaryFlat m hook op lhs y s := by
  induction below with
  | here plain =>
    rw [evalBinary_flat m op 0 (fun unwraps => notOptional unwraps.1) fun unwraps => plain unwraps.1]
  | inner payload rest ih =>
    rw [evalBinary.eq_def]
    dsimp only
    rw [if_neg fun unwraps => notOptional unwraps.1,
      if_pos ⟨(optionalPayload_some.mp payload).1, notOptional, notNull⟩, payload]
    exact ih

/-- Operands that are not unwrapped any further are compared as `Equals` says. -/
theorem Equals.of_flat {lhs rhs : CTFEValue} {equal : Bool}
    (left : ¬(lhs.kind = .OPTIONAL ∧ rhs.kind ≠ .OPTIONAL ∧ rhs.kind ≠ .NULL))
    (right : ¬(rhs.kind = .OPTIONAL ∧ lhs.kind ≠ .OPTIONAL ∧ lhs.kind ≠ .NULL))
    (decided : flatTruth m lhs rhs s = some equal) : Equals m s lhs rhs equal := by
  unfold flatTruth at decided
  split_ifs at decided with both leftNull rightNull
  · cases decided
    exact .optionals both.1 both.2
  · cases decided
    exact .optionalNull leftNull.1 leftNull.2
  · cases decided
    exact .nullOptional rightNull.1 rightNull.2
  · have plainLeft : lhs.kind ≠ .OPTIONAL := fun optional => by
      by_cases optional' : rhs.kind = .OPTIONAL
      · exact both ⟨optional, optional'⟩
      · exact left ⟨optional, optional', fun null => leftNull ⟨optional, null⟩⟩
    have plainRight : rhs.kind ≠ .OPTIONAL := fun optional =>
      right ⟨optional, plainLeft, fun null => rightNull ⟨null, optional⟩⟩
    exact .plain (fun optional => absurd optional plainLeft) (fun optional => absurd optional plainRight)
      (.here plainLeft) (.here plainRight) decided

/-- Unwrapping an operand keeps what the comparison comes to. -/
theorem Equals.unwrap {lhs rhs : CTFEValue} {p : Ptr} {equal : Bool} (payload : optionalPayload lhs = some (some p))
    (notOptional : rhs.kind ≠ .OPTIONAL) (notNull : rhs.kind ≠ .NULL)
    (equals : Equals m s (m.loadValue p s) rhs equal) : Equals m s lhs rhs equal := by
  cases equals with
  | optionals _ right => exact absurd right notOptional
  | optionalNull _ right => exact absurd right notNull
  | nullOptional _ right => exact absurd right notOptional
  | plain _ _ below below' decided =>
    exact .plain (fun _ => ⟨notOptional, notNull⟩) (fun optional => absurd optional notOptional)
      (.inner payload below) below' decided

variable {m s}

theorem evalBinary_equals {op : TokenKind} (compares : op = .EQ ∨ op = .NEQ) {fuel : Nat}
    {lhs rhs v : CTFEValue} {s' : σ} (alone : LeftAlone m s hook op lhs rhs)
    (done : evalBinary m hook op fuel lhs rhs s = .ok v s') :
    ∃ equal, Equals m s lhs rhs equal ∧ v = .bool (truthOf op equal) := by
  have refused : ∀ {v : CTFEValue} {s' : σ}, (Exec.notConst : Exec σ CTFEValue) s ≠ .ok v s' := nofun
  induction fuel using Nat.strongRecOn generalizing lhs rhs with
  | _ fuel ih =>
    by_cases left : lhs.kind = .OPTIONAL ∧ rhs.kind ≠ .OPTIONAL ∧ rhs.kind ≠ .NULL
    · rw [evalBinary.eq_def] at done
      dsimp only at done
      rw [if_pos left] at done
      rcases payload : optionalPayload lhs with _ | (_ | p) <;> rw [payload] at done
      · exact absurd done refused
      · exact absurd done refused
      · cases fuel with
        | zero => cases done
        | succ fuel =>
          obtain ⟨equal, equals, same⟩ := ih fuel (Nat.lt_succ_self _)
            (alone.unwrap_left m s payload left.2.1 left.2.2) done
          exact ⟨equal, .unwrap m s payload left.2.1 left.2.2 equals, same⟩
    · by_cases right : rhs.kind = .OPTIONAL ∧ lhs.kind ≠ .OPTIONAL ∧ lhs.kind ≠ .NULL
      · rw [evalBinary.eq_def] at done
        dsimp only at done
        rw [if_neg left, if_pos right] at done
        rcases payload : optionalPayload rhs with _ | (_ | p) <;> rw [payload] at done
        · exact absurd done refused
        · exact absurd done refused
        · cases fuel with
          | zero => cases done
          | succ fuel =>
            obtain ⟨equal, equals, same⟩ := ih fuel (Nat.lt_succ_self _)
              (alone.unwrap_right m s payload right.2.1 right.2.2) done
            exact ⟨equal, (Equals.unwrap m s payload right.2.1 right.2.2 equals.symm).symm, same⟩
      · have compared := evalBinaryFlat_compares m compares (alone.silent m s left right)
        rw [evalBinary_flat m op fuel left right, compared] at done
        cases decided : flatTruth m lhs rhs s with
        | none =>
          rw [decided] at done
          cases done
        | some equal =>
          rw [decided] at done
          cases done
          exact ⟨equal, .of_flat m s left right decided, rfl⟩

/-- Operands that are compared as `Equals` says are not unwrapped at all, or down to plain values. -/
theorem Equals.yields {op : TokenKind} (compares : op = .EQ ∨ op = .NEQ) {lhs rhs : CTFEValue} {equal : Bool}
    (alone : LeftAlone m s hook op lhs rhs) (equals : Equals m s lhs rhs equal) :
    ∃ fuel, evalBinary m hook op fuel lhs rhs s = .ok (.bool (truthOf op equal)) s := by
  have unasked : ∀ {a b : CTFEValue}, a.kind = .OPTIONAL ∨ b.kind = .OPTIONAL → flatTruth m a b s = some equal →
      evalBinaryFlat m hook op a b s = .ok (.bool (truthOf op equal)) s := by
    intro a b optional settled
    rw [evalBinaryFlat_compares m compares, settled]
    rintro (⟨left, right⟩ | undecided)
    · rcases optional with optional | optional
      · exact absurd (left.symm.trans optional) (by decide)
      · exact absurd (right.symm.trans optional) (by decide)
    · exact absurd (undecided.symm.trans settled) nofun
  cases equals with
  | optionals left right =>
    refine ⟨0, ?_⟩
    rw [evalBinary_flat m op 0 (fun unwraps => unwraps.2.1 right) (fun unwraps => unwraps.2.1 left)]
    exact unasked (.inl left) (by rw [flatTruth, if_pos ⟨left, right⟩])
  | optionalNull left right =>
    refine ⟨0, ?_⟩
    rw [evalBinary_flat m op 0 (fun unwraps => unwraps.2.2 right) (fun unwraps => unwraps.2.1 left)]
    exact unasked (.inl left) (by rw [flatTruth, if_neg (by simp [right]), if_pos ⟨left, right⟩])
  | nullOptional left right =>
    refine ⟨0, ?_⟩
    rw [evalBinary_flat m op 0 (fun unwraps => unwraps.2.1 right) (fun unwraps => unwraps.2.2 left)]
    exact unasked (.inr right)
      (by rw [flatTruth, if_neg (by simp [left]), if_neg (by simp [left]), if_pos ⟨left, right⟩])
  | plain left right below below' decided =>
    rename_i x y d e
    have settled : flatTruth m x y s = some equal := by
      rw [flatTruth, if_neg fun both => below.plain both.1, if_neg fun both => below.plain both.1,
        if_neg fun both => below'.plain both.2, decided]
    have compared : evalBinaryFlat m hook op x y s = .ok (.bool (truthOf op equal)) s := by
      rw [evalBinaryFlat_compares m compares, settled]
      rintro (types | undecided)
      · exact alone x y d e left right below below' (.inl types)
      · exact absurd (undecided.symm.trans settled) nofun
    by_cases optional : lhs.kind = .OPTIONAL
    · obtain ⟨-, rfl⟩ := below'.same (left optional).1
      exact ⟨d, by rw [evalBinary_left m s op below (left optional).1 (left optional).2, compared]⟩
    · obtain ⟨-, rfl⟩ := below.same optional
      by_cases optional' : rhs.kind = .OPTIONAL
      · exact ⟨e, by rw [evalBinary_right m s op below' (right optional').1 (right optional').2, compared]⟩
      · obtain ⟨-, rfl⟩ := below'.same optional'
        refine ⟨0, ?_⟩
        rw [evalBinary_flat m op 0 (fun unwraps => optional unwraps.1) (fun unwraps => optional' unwraps.1), compared]

theorem YieldsBool.of_done {op : TokenKind} (fuel : Nat) {lhs rhs : CTFEValue} {truth : Bool}
    (done : evalBinary m hook op fuel lhs rhs s = .ok (.bool truth) s) : YieldsBool m s hook op lhs rhs truth := by
  refine ⟨fuel, _, _, done, ?_⟩
  cases truth <;> decide

/-- The comparisons yield a BOOL exactly where `Equals` says what they come to. -/
theorem yieldsBool_iff {op : TokenKind} (compares : op = .EQ ∨ op = .NEQ) {lhs rhs : CTFEValue} {truth : Bool}
    (alone : LeftAlone m s hook op lhs rhs) :
    YieldsBool m s hook op lhs rhs truth ↔ ∃ equal, Equals m s lhs rhs equal ∧ truth = truthOf op equal := by
  have shown : ∀ b : Bool, b = decide ((CTFEValue.bool b).b ≠ 0) := by decide
  constructor
  · rintro ⟨fuel, v, s', done, -, rfl⟩
    obtain ⟨equal, equals, rfl⟩ := evalBinary_equals compares alone done
    exact ⟨equal, equals, (shown _).symm⟩
  · rintro ⟨equal, equals, rfl⟩
    obtain ⟨fuel, done⟩ := equals.yields compares alone
    exact .of_done fuel done

/-! ### The laws -/

/-- The equality of two values that are no optionals. -/
theorem Equals.flat {a b : CTFEValue} {equal : Bool} (equals : Equals m s a b equal) (left : a.kind ≠ .OPTIONAL)
    (right : b.kind ≠ .OPTIONAL) : a.plain.eq m s b.plain = some equal := by
  cases equals with
  | optionals left' => exact absurd left' left
  | optionalNull left' => exact absurd left' left
  | nullOptional _ right' => exact absurd right' right
  | plain _ _ below below' decided =>
    obtain ⟨-, rfl⟩ := below.same left
    obtain ⟨-, rfl⟩ := below'.same right
    exact decided

/-- Equality of a value with itself. -/
theorem Equals.self {a : CTFEValue} {equal : Bool} (equals : Equals m s a a equal) :
    equal = true ↔ SelfEqual m s 33 a := by
  rw [← valueEqRec_self]
  by_cases optional : a.kind = .OPTIONAL
  · rw [equals.unique (.optionals optional optional)]
  · rw [valueEqRec_plain m s optional, leafEq_plain m s rfl (equals.flat optional optional)]

variable (m s)

/-- When `a == b` and `b == c` make for `a == c`: null is not compared with an optional over a string or a
reference; two optionals over a plain value have one depth, within that of the comparison, and one kind below them;
and the plain values compose. -/
structure EqualitiesCompose (a b c : CTFEValue) : Prop where
  nulls : a.kind = .NULL ∧ c.kind = .OPTIONAL ∨ a.kind = .OPTIONAL ∧ c.kind = .NULL →
    b.kind ≠ .STRING ∧ b.kind ≠ .REFERENCE
  shapes : a.kind = .OPTIONAL → c.kind = .OPTIONAL → b.kind ≠ .OPTIONAL → b.kind ≠ .NULL →
    ∀ d x e z, Core m s a d x → Core m s c e z → d = e ∧ d ≤ 32 ∧ x.kind = z.kind
  cores : ∀ x y z d e f, Core m s a d x → Core m s b e y → Core m s c f z → x.plain.Composes y.plain z.plain

variable {m s}

/-- The plain value below an operand of an equality, beside one that is neither optional nor null. -/
theorem Equals.inner {a b : CTFEValue} {equal : Bool} (equals : Equals m s a b equal)
    (notOptional : b.kind ≠ .OPTIONAL) (notNull : b.kind ≠ .NULL) :
    ∃ d x, Core m s a d x ∧ x.plain.eq m s b.plain = some equal := by
  cases equals with
  | optionals _ right => exact absurd right notOptional
  | optionalNull _ right => exact absurd right notNull
  | nullOptional _ right => exact absurd right notOptional
  | plain _ _ below below' decided =>
    obtain ⟨-, rfl⟩ := below'.same notOptional
    exact ⟨_, _, below, decided⟩

theorem EqualitiesCompose.symm {a b c : CTFEValue} (compose : EqualitiesCompose m s a b c) :
    EqualitiesCompose m s c b a := by
  refine ⟨?_, ?_, ?_⟩
  · rintro (⟨left, right⟩ | ⟨left, right⟩)
    · exact compose.nulls (.inr ⟨right, left⟩)
    · exact compose.nulls (.inl ⟨right, left⟩)
  · intro left right plain notNull d x e z below below'
    obtain ⟨depth, small, kind⟩ := compose.shapes right left plain notNull e z d x below' below
    exact ⟨depth.symm, depth ▸ small, kind.symm⟩
  · intro x y z d e f below below' below''
    exact (compose.cores z y x f e d below'' below' below).symm

/-- Where the plain values are known, they alone decide whether equalities compose. -/
theorem EqualitiesCompose.of_cores {a b c x y z : CTFEValue} {d e f : Nat} (below : Core m s a d x)
    (below' : Core m s b e y) (below'' : Core m s c f z) (compose : x.plain.Composes y.plain z.plain)
    (nulls : a.kind = .NULL ∧ c.kind = .OPTIONAL ∨ a.kind = .OPTIONAL ∧ c.kind = .NULL →
      b.kind ≠ .STRING ∧ b.kind ≠ .REFERENCE)
    (shapes : a.kind = .OPTIONAL → c.kind = .OPTIONAL → b.kind ≠ .OPTIONAL → b.kind ≠ .NULL →
      d = f ∧ d ≤ 32 ∧ x.kind = z.kind) : EqualitiesCompose m s a b c := by
  refine ⟨nulls, ?_, ?_⟩
  · intro left right plain notNull d' x' f' z' atA atC
    obtain ⟨rfl, rfl⟩ := below.unique atA
    obtain ⟨rfl, rfl⟩ := below''.unique atC
    exact shapes left right plain notNull
  · intro x' y' z' d' e' f' atA atB atC
    obtain ⟨-, rfl⟩ := below.unique atA
    obtain ⟨-, rfl⟩ := below'.unique atB
    obtain ⟨-, rfl⟩ := below''.unique atC
    exact compose

/-- Between two optionals everything that is equal to a third optional is equal. -/
theorem Equals.composes_middle {a b c : CTFEValue} {equal : Bool} (ab : Equals m s a b true)
    (bc : Equals m s b c true) (ac : Equals m s a c equal) (atA : a.kind = .OPTIONAL) (atB : b.kind = .OPTIONAL) :
    equal = true ∧ EqualitiesCompose m s a b c := by
  have same : valueEqRec m 33 a b s = true := (Equals.optionals atA atB).unique ab
  by_cases atC : c.kind = .OPTIONAL
  · have same' : valueEqRec m 33 b c s = true := (Equals.optionals atB atC).unique bc
    have whole : equal = valueEqRec m 33 a c s := ac.unique (.optionals atA atC)
    refine ⟨whole.trans (valueEqRec_trans m s same same'), ?_, ?_, ?_⟩
    · rintro (⟨null, -⟩ | ⟨-, null⟩)
      · exact absurd (null.symm.trans atA) (by decide)
      · exact absurd (null.symm.trans atC) (by decide)
    · exact fun _ _ plain => absurd atB plain
    · intro x y z d e f below below' below''
      obtain ⟨-, -, left⟩ := (valueEqRec_core m s below below').mp same
      obtain ⟨-, -, right⟩ := (valueEqRec_core m s below' below'').mp same'
      exact PlainValue.composes_of_kinds (valueEqRec_kind m s left) (.inl (valueEqRec_kind m s right))
  · by_cases null : c.kind = .NULL
    · have empty : b.b = 0 := of_decide_eq_true ((Equals.optionalNull atB null).unique bc)
      have empty' : a.b = 0 := (valueEqRec_empty m s same atA).mpr empty
      refine ⟨(ac.unique (.optionalNull atA null)).trans (decide_eq_true empty'), ?_, ?_, ?_⟩
      · rw [atB]
        exact fun _ => ⟨by decide, by decide⟩
      · exact fun _ optional => absurd optional atC
      · exact fun _ _ _ _ _ _ _ below' => absurd empty (below'.optional atB).1
    · obtain ⟨d, x, below, decided⟩ := ac.inner atC null
      obtain ⟨e, y, below', decided'⟩ := bc.inner atC null
      obtain ⟨-, -, leaf⟩ := (valueEqRec_core m s below below').mp same
      obtain ⟨kind, leaf⟩ := (leafEq_iff m s below.plain).mp leaf
      have equalCores : x.plain.eq m s y.plain = some true := by
        refine leaf.resolve_right fun span => ?_
        have other : y.plain = .other := by
          unfold CTFEValue.plain
          rw [← kind, span.1]
        rw [other] at decided'
        exact PlainValue.other_eq_true m s decided'
      have composes := PlainValue.composes_of_kinds kind (.inr null)
      refine ⟨(PlainValue.composes_iff m s equalCores decided' decided).mpr composes, ?_⟩
      refine .of_cores below below' (.here atC) composes ?_ fun _ optional => absurd optional atC
      rw [atB]
      exact fun _ => ⟨by decide, by decide⟩

/-- Past an optional, between two values that are none. -/
theorem Equals.composes_through {a b c : CTFEValue} {equal : Bool} (ab : Equals m s a b true)
    (bc : Equals m s b c true) (ac : Equals m s a c equal) (atA : a.kind ≠ .OPTIONAL) (atB : b.kind = .OPTIONAL)
    (atC : c.kind ≠ .OPTIONAL) : equal = true ↔ EqualitiesCompose m s a b c := by
  by_cases null : a.kind = .NULL
  · have empty : b.b = 0 := of_decide_eq_true ((Equals.nullOptional null atB).unique ab)
    by_cases null' : c.kind = .NULL
    · have nulls := ac.flat atA atC
      unfold CTFEValue.plain at nulls
      rw [null, null'] at nulls
      refine ⟨fun _ => ⟨?_, fun optional => absurd optional atA, ?_⟩, fun _ => (Option.some.inj nulls).symm⟩
      · rw [atB]
        exact fun _ => ⟨by decide, by decide⟩
      · exact fun _ _ _ _ _ _ _ below' => absurd empty (below'.optional atB).1
    · obtain ⟨_, _, below, -⟩ := bc.inner atC null'
      exact absurd empty (below.optional atB).1
  · by_cases null' : c.kind = .NULL
    · have empty : b.b = 0 := of_decide_eq_true ((Equals.optionalNull atB null').unique bc)
      obtain ⟨_, _, below, -⟩ := ab.symm.inner atA null
      exact absurd empty (below.optional atB).1
    · obtain ⟨e, y, below, left⟩ := ab.symm.inner atA null
      obtain ⟨e', y', below', right⟩ := bc.inner atC null'
      obtain ⟨rfl, rfl⟩ := below.unique below'
      rw [PlainValue.eq_symm] at left
      rw [PlainValue.composes_iff m s left right (ac.flat atA atC)]
      constructor
      · intro compose
        refine .of_cores (.here atA) below (.here atC) compose ?_ fun optional => absurd optional atA
        rw [atB]
        exact fun _ => ⟨by decide, by decide⟩
      · exact fun compose => compose.cores _ _ _ _ _ _ (.here atA) below (.here atC)

/-- Past a value that is no optional, between two optionals. -/
theorem Equals.composes_outer {a b c : CTFEValue} {equal : Bool} (ab : Equals m s a b true)
    (bc : Equals m s b c true) (ac : Equals m s a c equal) (atA : a.kind = .OPTIONAL) (atB : b.kind ≠ .OPTIONAL)
    (atC : c.kind = .OPTIONAL) : equal = true ↔ EqualitiesCompose m s a b c := by
  have whole : equal = valueEqRec m 33 a c s := ac.unique (.optionals atA atC)
  have noNulls : a.kind = .NULL ∧ c.kind = .OPTIONAL ∨ a.kind = .OPTIONAL ∧ c.kind = .NULL →
      b.kind ≠ .STRING ∧ b.kind ≠ .REFERENCE := by
    rintro (⟨null, -⟩ | ⟨-, null⟩)
    · exact absurd (null.symm.trans atA) (by decide)
    · exact absurd (null.symm.trans atC) (by decide)
  rw [whole]
  by_cases null : b.kind = .NULL
  · have emptyA : a.b = 0 := of_decide_eq_true ((Equals.optionalNull atA null).unique ab)
    have emptyC : c.b = 0 := of_decide_eq_true ((Equals.nullOptional null atC).unique bc)
    refine ⟨fun _ => ⟨noNulls, fun _ _ _ notNull => absurd null notNull, ?_⟩, fun _ => ?_⟩
    · exact fun _ _ _ _ _ _ below => absurd emptyA (below.optional atA).1
    · exact (valueEqRec_optional_iff m s atA atC 32).mpr (.inl ⟨emptyA, emptyC⟩)
  · obtain ⟨d, x, below, left⟩ := ab.inner atB null
    obtain ⟨f, z, below', right⟩ := bc.symm.inner atB null
    rw [PlainValue.eq_symm] at right
    rw [valueEqRec_core m s below below']
    constructor
    · rintro ⟨depth, small, leaf⟩
      obtain ⟨kind, leaf⟩ := (leafEq_iff m s below.plain).mp leaf
      obtain ⟨r, decided⟩ := PlainValue.eq_of_kind m s left null kind
      have equalCores : r = true := by
        rcases leaf with same | ⟨span, -⟩
        · exact Option.some.inj (decided.symm.trans same)
        · have other : x.plain = .other := by
            unfold CTFEValue.plain
            rw [span]
          rw [other] at left
          exact (PlainValue.other_eq_true m s left).elim
      have compose := (PlainValue.composes_iff m s left right decided).mp equalCores
      exact .of_cores below (.here atB) below' compose noNulls fun _ _ _ _ =>
        ⟨depth, Nat.le_of_lt_succ small, kind⟩
    · intro compose
      obtain ⟨depth, small, kind⟩ := compose.shapes atA atC atB null d x f z below below'
      obtain ⟨r, decided⟩ := PlainValue.eq_of_kind m s left null kind
      have cores := compose.cores x b z d 0 f below (.here atB) below'
      have equalCores := (PlainValue.composes_iff m s left right decided).mpr cores
      rw [equalCores] at decided
      exact ⟨depth, Nat.lt_succ_of_le small, leafEq_plain m s kind decided⟩

/-- Past a value that is no optional, from an optional to a value that is none. -/
theorem Equals.composes_left {a b c : CTFEValue} {equal : Bool} (ab : Equals m s a b true)
    (bc : Equals m s b c true) (ac : Equals m s a c equal) (atA : a.kind = .OPTIONAL) (atB : b.kind ≠ .OPTIONAL)
    (atC : c.kind ≠ .OPTIONAL) : equal = true ↔ EqualitiesCompose m s a b c := by
  by_cases null : c.kind = .NULL
  · have whole : equal = decide (a.b = 0) := ac.unique (.optionalNull atA null)
    rw [whole, decide_eq_true_eq]
    by_cases null' : b.kind = .NULL
    · have empty : a.b = 0 := of_decide_eq_true ((Equals.optionalNull atA null').unique ab)
      refine ⟨fun _ => ⟨?_, fun _ optional => absurd optional atC, ?_⟩, fun _ => empty⟩
      · rw [null']
        exact fun _ => ⟨by decide, by decide⟩
      · exact fun _ _ _ _ _ _ below => absurd empty (below.optional atA).1
    · obtain ⟨d, x, below, -⟩ := ab.inner atB null'
      have filled := (below.optional atA).1
      have pointer : b.kind = .STRING ∨ b.kind = .REFERENCE := PlainValue.eq_null m s null' null (bc.flat atB atC)
      refine ⟨fun empty => absurd empty filled, fun compose => ?_⟩
      obtain ⟨noString, noReference⟩ := compose.nulls (.inr ⟨atA, null⟩)
      exact (pointer.elim noString noReference).elim
  · by_cases null' : b.kind = .NULL
    · have empty : a.b = 0 := of_decide_eq_true ((Equals.optionalNull atA null').unique ab)
      obtain ⟨d, x, below, -⟩ := ac.inner atC null
      exact absurd empty (below.optional atA).1
    · obtain ⟨d, x, below, left⟩ := ab.inner atB null'
      obtain ⟨d', x', below', decided⟩ := ac.inner atC null
      obtain ⟨rfl, rfl⟩ := below.unique below'
      rw [PlainValue.composes_iff m s left (bc.flat atB atC) decided]
      constructor
      · intro compose
        refine .of_cores below (.here atB) (.here atC) compose ?_ fun _ optional => absurd optional atC
        rintro (⟨_, optional⟩ | ⟨_, isNull⟩)
        · exact absurd optional atC
        · exact absurd isNull null
      · exact fun compose => compose.cores _ _ _ _ _ _ below (.here atB) (.here atC)

theorem Equals.composes {a b c : CTFEValue} {equal : Bool} (ab : Equals m s a b true) (bc : Equals m s b c true)
    (ac : Equals m s a c equal) : equal = true ↔ EqualitiesCompose m s a b c := by
  by_cases atA : a.kind = .OPTIONAL <;> by_cases atB : b.kind = .OPTIONAL <;> by_cases atC : c.kind = .OPTIONAL
  · obtain ⟨true_, compose⟩ := ab.composes_middle bc ac atA atB
    exact ⟨fun _ => compose, fun _ => true_⟩
  · obtain ⟨true_, compose⟩ := ab.composes_middle bc ac atA atB
    exact ⟨fun _ => compose, fun _ => true_⟩
  · exact ab.composes_outer bc ac atA atB atC
  · exact ab.composes_left bc ac atA atB atC
  · obtain ⟨true_, compose⟩ := bc.symm.composes_middle ab.symm ac.symm atC atB
    exact ⟨fun _ => compose.symm, fun _ => true_⟩
  · exact ab.composes_through bc ac atA atB atC
  · rw [bc.symm.composes_left ab.symm ac.symm atC atB atA]
    exact ⟨fun compose => compose.symm, fun compose => compose.symm⟩
  · rw [PlainValue.composes_iff m s (ab.flat atA atB) (bc.flat atB atC) (ac.flat atA atC)]
    constructor
    · intro compose
      refine .of_cores (.here atA) (.here atB) (.here atC) compose ?_ fun optional => absurd optional atA
      rintro (⟨_, optional⟩ | ⟨optional, _⟩)
      · exact absurd optional atC
      · exact absurd optional atA
    · exact fun compose => compose.cores _ _ _ _ _ _ (.here atA) (.here atB) (.here atC)

end

/-- Without an embedder the callback never answers. -/
theorem leftAlone_none {σ : Type} (m : Machine σ) (s : σ) (op : TokenKind) (lhs rhs : CTFEValue) :
    LeftAlone m s none op lhs rhs :=
  fun _ _ _ _ _ _ _ _ _ => rfl

/-- An optional around what lies at an address. -/
def CTFEValue.optional (payload : Ptr) : CTFEValue := { invalid with kind := .OPTIONAL, b := 1, s := ⟨payload, 0⟩ }

/-- A machine with the integer five at 8, an optional around it at 16 and a reference at 24. -/
def Machine.boxes : Machine Unit :=
  { Machine.bare with
    loadValue := fun p _ => if p = 8 then .int 5 else if p = 16 then .optional 8 else .reference 8 }

end HopHop
