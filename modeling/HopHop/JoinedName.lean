import Mathlib.Data.List.Basic

/-! Two words joined by a separator: when do two pairs of words make the same text? The separator repeats one letter,
which may occur in the words as well. -/

namespace HopHop.Joined

variable {α : Type*} {c : α} {k : Nat} {a b n m s : List α}

def joined (c : α) (k : Nat) (a n : List α) : List α := a ++ List.replicate k c ++ n

/-- The words `b` and `m` are the words `a` and `n` with the cut further to the right: either the separator slides along
letters like its own, or the cut moves to a later separator. -/
def Shifted (c : α) (k : Nat) (a n b m : List α) : Prop :=
  (∃ j, j ≤ k ∧ b = a ++ List.replicate j c ∧ n = List.replicate j c ++ m) ∨
    ∃ r, b = joined c k a r ∧ n = joined c k r m

theorem replicate_add_comm (i j : Nat) :
    List.replicate i c ++ List.replicate j c = List.replicate j c ++ List.replicate i c := by
  rw [List.replicate_append_replicate, List.replicate_append_replicate, Nat.add_comm]

theorem joined_of_shifted (shifted : Shifted c k a n b m) : joined c k a n = joined c k b m := by
  rcases shifted with ⟨j, _, first, second⟩ | ⟨r, first, second⟩
  · have swap := replicate_add_comm (c := c) k j
    simp only [joined, first, second, List.append_assoc, List.append_cancel_left_eq]
    rw [← List.append_assoc, swap, List.append_assoc]
  · simp only [joined, first, second, List.append_assoc]

/-- A separator in front of a word and the same separator further to the right. -/
theorem separator_cases (same : List.replicate k c ++ n = s ++ (List.replicate k c ++ m)) :
    (∃ j, j ≤ k ∧ s = List.replicate j c ∧ n = List.replicate j c ++ m) ∨
      ∃ r, s = List.replicate k c ++ r ∧ n = joined c k r m := by
  rcases List.append_eq_append_iff.mp same with ⟨r, first, second⟩ | ⟨r, first, second⟩
  · exact Or.inr ⟨r, first, by rw [second, joined, List.append_assoc]⟩
  · obtain ⟨total, left, right⟩ := List.append_eq_replicate_iff.mp first.symm
    refine Or.inl ⟨s.length, by omega, left, ?_⟩
    have parts : List.replicate k c = r ++ s := by
      rw [left, right, List.replicate_append_replicate, ← total, Nat.add_comm]
    rw [parts, List.append_assoc] at second
    rw [← left]
    exact (List.append_cancel_left second).symm

/-- Two pairs of words make the same text exactly if one is the other with the cut moved. -/
theorem joined_eq_iff : joined c k a n = joined c k b m ↔ Shifted c k a n b m ∨ Shifted c k b m a n := by
  constructor
  · intro same
    simp only [joined, List.append_assoc] at same
    rcases List.append_eq_append_iff.mp same with ⟨s, first, second⟩ | ⟨s, first, second⟩
    · rcases separator_cases second with ⟨j, bound, left, right⟩ | ⟨r, left, right⟩
      · exact Or.inl (Or.inl ⟨j, bound, by rw [first, left], right⟩)
      · exact Or.inl (Or.inr ⟨r, by rw [first, left, joined, List.append_assoc], right⟩)
    · rcases separator_cases second with ⟨j, bound, left, right⟩ | ⟨r, left, right⟩
      · exact Or.inr (Or.inl ⟨j, bound, by rw [first, left], right⟩)
      · exact Or.inr (Or.inr ⟨r, by rw [first, left, joined, List.append_assoc], right⟩)
  · rintro (shifted | shifted)
    · exact joined_of_shifted shifted
    · exact (joined_of_shifted shifted).symm

/-- With one first word the second word is known. -/
theorem joined_injective : Function.Injective (joined c k a) := fun _ _ same => List.append_cancel_left same

/-- With one second word the first word is known. -/
theorem eq_of_joined_eq (same : joined c k a n = joined c k b n) : a = b := by
  simp only [joined, List.append_assoc] at same
  exact List.append_cancel_right same

end HopHop.Joined
