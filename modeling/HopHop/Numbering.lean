import Mathlib.Data.List.Basic
import Mathlib.Data.List.Induction

namespace HopHop

/-! Tables that say at each place which number has been given to it. -/

/-- Gives the places of a list their numbers, from one on; a place that is there twice keeps the last. -/
def numberLast (start : Nat) (table : List (Option Nat)) (places : List Nat) : List (Option Nat) :=
  places.zipIdx.foldl (fun t place => t.set place.1 (some (start + place.2))) table

/-- Gives the places of a list that have no number theirs; a place that is there twice keeps the first. -/
def numberFirst (table : List (Option Nat)) (places : List Nat) : List (Option Nat) :=
  places.zipIdx.foldl (fun t place => if t[place.1]? = some none then t.set place.1 (some place.2) else t) table

section

variable {start : Nat} {table : List (Option Nat)} {places : List Nat} {i : Nat}

theorem numberLast_concat (place : Nat) :
    numberLast start table (places ++ [place])
      = (numberLast start table places).set place (some (start + places.length)) := by
  simp [numberLast, List.zipIdx_append, List.foldl_append]

theorem numberFirst_concat (place : Nat) :
    numberFirst table (places ++ [place])
      = if (numberFirst table places)[place]? = some none then
          (numberFirst table places).set place (some places.length)
        else numberFirst table places := by
  simp only [numberFirst, List.zipIdx_append, List.foldl_append, List.zipIdx_singleton, List.foldl_cons, List.foldl_nil,
    Nat.zero_add]
  congr

theorem numberLast_length : (numberLast start table places).length = table.length := by
  induction places using List.reverseRecOn with
  | nil => rfl
  | append_singleton places place ih => rw [numberLast_concat, List.length_set, ih]

theorem numberFirst_length : (numberFirst table places).length = table.length := by
  induction places using List.reverseRecOn with
  | nil => rfl
  | append_singleton places place ih =>
    rw [numberFirst_concat]
    split
    · rw [List.length_set, ih]
    · exact ih

/-- A place that is not listed stays what it was. -/
theorem numberLast_of_notMem (other : i ∉ places) : (numberLast start table places)[i]? = table[i]? := by
  induction places using List.reverseRecOn with
  | nil => rfl
  | append_singleton places place ih =>
    rw [List.mem_append, List.mem_singleton, not_or] at other
    rw [numberLast_concat, List.getElem?_set_ne (Ne.symm other.2), ih other.1]

/-- A place that is listed has a number that it is listed at. -/
theorem numberLast_of_mem (listed : i ∈ places) (inside : i < table.length) :
    ∃ k, places[k]? = some i ∧ (numberLast start table places)[i]? = some (some (start + k)) := by
  induction places using List.reverseRecOn with
  | nil => cases listed
  | append_singleton places place ih =>
    rw [numberLast_concat]
    by_cases here : place = i
    · refine ⟨places.length, by simp [here], ?_⟩
      rw [here, List.getElem?_set_self (by rw [numberLast_length]; exact inside)]
    · have before : i ∈ places := by
        rw [List.mem_append, List.mem_singleton] at listed
        exact listed.resolve_right (Ne.symm here)
      obtain ⟨k, atPlace, number⟩ := ih before
      have short := (List.getElem?_eq_some_iff.mp atPlace).1
      refine ⟨k, by rw [List.getElem?_append_left short, atPlace], ?_⟩
      rw [List.getElem?_set_ne here, number]

theorem numberFirst_of_notMem (other : i ∉ places) : (numberFirst table places)[i]? = table[i]? := by
  induction places using List.reverseRecOn with
  | nil => rfl
  | append_singleton places place ih =>
    rw [List.mem_append, List.mem_singleton, not_or] at other
    rw [numberFirst_concat]
    split
    · rw [List.getElem?_set_ne (Ne.symm other.2), ih other.1]
    · exact ih other.1

theorem numberFirst_of_mem (listed : i ∈ places) (free : table[i]? = some none) :
    ∃ k, places[k]? = some i ∧ (numberFirst table places)[i]? = some (some k) := by
  have inside : i < table.length := (List.getElem?_eq_some_iff.mp free).1
  induction places using List.reverseRecOn with
  | nil => cases listed
  | append_singleton places place ih =>
    rw [numberFirst_concat]
    by_cases before : i ∈ places
    · obtain ⟨k, atPlace, number⟩ := ih before
      have short := (List.getElem?_eq_some_iff.mp atPlace).1
      refine ⟨k, by rw [List.getElem?_append_left short, atPlace], ?_⟩
      split
      · rename_i none
        by_cases here : place = i
        · rw [here, number] at none
          cases none
        · rw [List.getElem?_set_ne here, number]
      · exact number
    · have here : i = place := by
        rw [List.mem_append, List.mem_singleton] at listed
        exact listed.resolve_left before
      have none : (numberFirst table places)[place]? = some none := by
        rw [← here, numberFirst_of_notMem before, free]
      refine ⟨places.length, by simp [here], ?_⟩
      rw [if_pos none, here, List.getElem?_set_self (by rw [numberFirst_length, ← here]; exact inside)]

end

end HopHop
