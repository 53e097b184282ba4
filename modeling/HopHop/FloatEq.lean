import Mathlib.Data.Ordering.Basic

/-! Equality of floats: it is symmetric and transitive, and fails to be reflexive at the values that are not a
number. -/

namespace FloatEq

open Float.Model

/-- What two equal floats share: nothing for the values that are not a number, and no sign for zero. -/
def key : UnpackedFloat → Option (Option (UnpackedFloat.Sign × Option (Nat × Int)))
  | .notANumber => none
  | .zero _ => some none
  | .infinity sign => some (some (sign, none))
  | .finite sign mantissa exponent _ => some (some (sign, some (mantissa, exponent)))

theorem then_eq_iff {m₁ m₂ : Nat} {e₁ e₂ : Int} :
    (compare e₁ e₂).then (compare m₁ m₂) = .eq ↔ e₁ = e₂ ∧ m₁ = m₂ := by
  rw [Ordering.then_eq_eq, Std.LawfulEqCmp.compare_eq_iff_eq, Std.LawfulEqCmp.compare_eq_iff_eq]

theorem unequal {a b : UnpackedFloat} (compared : a.compare b ≠ some .eq)
    (keys : ∀ k, key a = some k → key b ≠ some k) :
    a.compare b = some .eq ↔ ∃ k, key a = some k ∧ key b = some k := by
  constructor
  · intro same
    exact absurd same compared
  · rintro ⟨k, left, right⟩
    exact absurd right (keys k left)

theorem equal {a b : UnpackedFloat} (compared : a.compare b = some .eq) (known : key a ≠ none) (keys : key a = key b) :
    a.compare b = some .eq ↔ ∃ k, key a = some k ∧ key b = some k := by
  obtain ⟨k, left⟩ := Option.ne_none_iff_exists'.mp known
  exact ⟨fun _ => ⟨k, left, keys ▸ left⟩, fun _ => compared⟩

/-- Two finite floats of one sign are compared by their exponents and then by their mantissas. -/
theorem finite_iff {sign : UnpackedFloat.Sign} {m m' : Nat} {e e' : Int} :
    (compare e e').then (compare m m') = .eq ↔
      ∃ k, some (some (sign, some (m, e))) = some k ∧ some (some (sign, some (m', e'))) = some k := by
  rw [then_eq_iff]
  constructor
  · rintro ⟨rfl, rfl⟩
    exact ⟨_, rfl, rfl⟩
  · rintro ⟨k, left, right⟩
    cases left.trans right.symm
    exact ⟨rfl, rfl⟩

/-- Two floats are equal when they have one key. -/
theorem beq_iff (a b : UnpackedFloat) : a.beq b = true ↔ ∃ k, key a = some k ∧ key b = some k := by
  rw [show a.beq b = (a.compare b == some .eq) from rfl, beq_iff_eq]
  cases a with
  | notANumber =>
    refine unequal (by intro same; cases same) fun k left => ?_
    cases left
  | zero s =>
    cases b with
    | zero t => exact equal rfl (by intro same; cases same) rfl
    | notANumber => exact unequal (by intro same; cases same) fun k _ right => by cases right
    | infinity t =>
      refine unequal (by intro same; cases t <;> cases same) fun k left right => ?_
      cases left.trans right.symm
    | finite t m e p =>
      refine unequal (by intro same; cases t <;> cases same) fun k left right => ?_
      cases left.trans right.symm
  | infinity s =>
    cases b with
    | infinity t =>
      by_cases same : s = t
      · subst same
        exact equal (by cases s <;> rfl) (by intro none; cases none) rfl
      · refine unequal (by intro eq; cases s <;> cases t <;> first | exact same rfl | cases eq) fun k left right => ?_
        cases left.trans right.symm
        exact same rfl
    | notANumber => exact unequal (by intro same; cases s <;> cases same) fun k _ right => by cases right
    | zero t =>
      refine unequal (by intro same; cases s <;> cases same) fun k left right => ?_
      cases left.trans right.symm
    | finite t m e p =>
      refine unequal (by intro same; cases s <;> cases same) fun k left right => ?_
      cases left.trans right.symm
  | finite s m e p =>
    have others (b : UnpackedFloat) (compared : UnpackedFloat.compare (.finite s m e p) b ≠ some .eq)
        (keys : key b ≠ some (some (s, some (m, e)))) :
        UnpackedFloat.compare (.finite s m e p) b = some .eq ↔
          ∃ k, key (.finite s m e p) = some k ∧ key b = some k := by
      refine unequal compared fun k left right => ?_
      cases left
      exact keys right
    cases b with
    | infinity t => exact others _ (by intro same; cases s <;> cases t <;> cases same) (by intro same; cases same)
    | notANumber => exact others _ (by intro same; cases s <;> cases same) (by intro same; cases same)
    | zero t => exact others _ (by intro same; cases s <;> cases same) (by intro same; cases same)
    | finite t m' e' p' =>
      cases s with
      | positive =>
        cases t with
        | positive => exact Option.some_inj.trans finite_iff
        | negative => exact others _ (by intro same; cases same) (by intro same; cases same)
      | negative =>
        cases t with
        | positive => exact others _ (by intro same; cases same) (by intro same; cases same)
        | negative => exact Option.some_inj.trans (Ordering.swap_eq_eq.trans finite_iff)

/-- Equality of floats is symmetric. -/
theorem symm (a b : Float) : (a == b) = (b == a) := by
  change a.toModel.unpack.beq b.toModel.unpack = b.toModel.unpack.beq a.toModel.unpack
  rw [Bool.eq_iff_iff, beq_iff, beq_iff]
  constructor <;> rintro ⟨k, left, right⟩ <;> exact ⟨k, right, left⟩

/-- Equality of floats is transitive. -/
theorem trans {a b c : Float} (ab : (a == b) = true) (bc : (b == c) = true) : (a == c) = true := by
  obtain ⟨k, atA, atB⟩ := (beq_iff a.toModel.unpack b.toModel.unpack).mp ab
  obtain ⟨k', atB', atC⟩ := (beq_iff b.toModel.unpack c.toModel.unpack).mp bc
  rw [atB] at atB'
  cases atB'
  exact (beq_iff a.toModel.unpack c.toModel.unpack).mpr ⟨k, atA, atC⟩

end FloatEq
