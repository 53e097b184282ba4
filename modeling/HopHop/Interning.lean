import Mathlib.Data.List.Basic

/-! Tables in which an entry is added only when no entry has its key yet. Entries without a key may be added freely. -/

namespace HopHop.Interning

variable {κ : Type}

/-- No key stands at two places. -/
def Distinct (keys : List (Option κ)) : Prop :=
  ∀ (i j : Nat) (k : κ), keys[i]? = some (some k) → keys[j]? = some (some k) → i = j

theorem key_of_append {keys : List (Option κ)} {new : Option κ} {i : Nat} {k : κ}
    (atI : (keys ++ [new])[i]? = some (some k)) : keys[i]? = some (some k) ∨ i = keys.length ∧ new = some k := by
  by_cases below : i < keys.length
  · rw [List.getElem?_append_left below] at atI
    exact .inl atI
  · have bound := (List.getElem?_eq_some_iff.mp atI).1
    rw [List.length_append, List.length_singleton] at bound
    have last : i = keys.length := by omega
    subst last
    simp only [List.getElem?_concat_length, Option.some.injEq] at atI
    exact .inr ⟨rfl, atI⟩

theorem Distinct.append_none {keys : List (Option κ)} (distinct : Distinct keys) : Distinct (keys ++ [none]) := by
  intro i j k atI atJ
  rcases key_of_append atI with oldI | ⟨-, isKey⟩
  · rcases key_of_append atJ with oldJ | ⟨-, isKey⟩
    · exact distinct i j k oldI oldJ
    · cases isKey
  · cases isKey

theorem Distinct.append_new {keys : List (Option κ)} {new : κ} (distinct : Distinct keys) (fresh : some new ∉ keys) :
    Distinct (keys ++ [some new]) := by
  intro i j k atI atJ
  rcases key_of_append atI with oldI | ⟨lastI, isKey⟩
  · rcases key_of_append atJ with oldJ | ⟨-, isKey⟩
    · exact distinct i j k oldI oldJ
    · exact absurd (isKey ▸ List.mem_of_getElem? oldI) fresh
  · rcases key_of_append atJ with oldJ | ⟨lastJ, -⟩
    · exact absurd (isKey ▸ List.mem_of_getElem? oldJ) fresh
    · rw [lastI, lastJ]

/-- A table that is searched for a key before an entry with that key is added keeps its keys distinct. -/
theorem Distinct.append {keys : List (Option κ)} {new : Option κ} (distinct : Distinct keys)
    (fresh : ∀ k, new = some k → some k ∉ keys) : Distinct (keys ++ [new]) := by
  cases new with
  | none => exact distinct.append_none
  | some k => exact distinct.append_new (fresh k rfl)

end HopHop.Interning
