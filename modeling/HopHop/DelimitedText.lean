import Mathlib.Data.List.Basic

/-! Texts from which the written value can be read back although more text follows. A writer is self-delimiting on a
set of values if the text of one of them, continued anyhow, determines the value and the continuation. -/

namespace HopHop.Delimited

variable {α β γ : Type*}

def SelfDelimiting (S : α → Prop) (write : α → List γ) : Prop :=
  ∀ a b, S a → S b → ∀ x y, write a ++ x = write b ++ y → a = b ∧ x = y

variable {S : α → Prop} {R : β → Prop} {write : α → List γ} {other : β → List γ}

theorem SelfDelimiting.injective (reads : SelfDelimiting S write) {a b : α} (inA : S a) (inB : S b)
    (same : write a = write b) : a = b :=
  (reads a b inA inB [] [] (by rw [List.append_nil, List.append_nil, same])).1

theorem cut_unique {stop : γ} {a b x y : List γ} (freeA : stop ∉ a) (freeB : stop ∉ b)
    (same : a ++ stop :: x = b ++ stop :: y) : a = b ∧ x = y := by
  induction a generalizing b with
  | nil =>
    cases b with
    | nil => exact ⟨rfl, (List.cons.inj same).2⟩
    | cons d b => exact absurd (List.mem_cons.mpr (.inl (List.cons.inj same).1)) freeB
  | cons c a ih =>
    cases b with
    | nil => exact absurd (List.mem_cons.mpr (.inl (List.cons.inj same).1.symm)) freeA
    | cons d b =>
      obtain ⟨head, tail⟩ := List.cons.inj same
      obtain ⟨words, rest⟩ := ih (fun member => freeA (List.mem_cons_of_mem c member))
        (fun member => freeB (List.mem_cons_of_mem d member)) tail
      exact ⟨by rw [head, words], rest⟩

/-- A word is read up to the first letter that no word has. -/
theorem SelfDelimiting.ended {stop : γ} (free : ∀ a, S a → stop ∉ write a)
    (injective : ∀ a b, S a → S b → write a = write b → a = b) : SelfDelimiting S fun a => write a ++ [stop] := by
  intro a b inA inB x y same
  simp only [List.append_assoc, List.cons_append, List.nil_append] at same
  obtain ⟨words, rest⟩ := cut_unique (free a inA) (free b inB) same
  exact ⟨injective a b inA inB words, rest⟩

theorem SelfDelimiting.after (reads : SelfDelimiting S write) (head : List γ) :
    SelfDelimiting S fun a => head ++ write a := by
  intro a b inA inB x y same
  rw [List.append_assoc, List.append_assoc] at same
  exact reads a b inA inB x y (List.append_cancel_left same)

theorem SelfDelimiting.before (reads : SelfDelimiting S write) (last : List γ) :
    SelfDelimiting S fun a => write a ++ last := by
  intro a b inA inB x y same
  rw [List.append_assoc, List.append_assoc] at same
  obtain ⟨value, rest⟩ := reads a b inA inB _ _ same
  exact ⟨value, List.append_cancel_left rest⟩

theorem SelfDelimiting.pair (reads : SelfDelimiting S write) (later : SelfDelimiting R other) :
    SelfDelimiting (fun p : α × β => S p.1 ∧ R p.2) fun p => write p.1 ++ other p.2 := by
  intro p q inP inQ x y same
  rw [List.append_assoc, List.append_assoc] at same
  obtain ⟨first, rest⟩ := reads p.1 q.1 inP.1 inQ.1 _ _ same
  obtain ⟨second, left⟩ := later p.2 q.2 inP.2 inQ.2 _ _ rest
  exact ⟨Prod.ext first second, left⟩

/-- A value is read through the parts it is written by. -/
theorem SelfDelimiting.through {f : β → α} (reads : SelfDelimiting S write) (injective : Function.Injective f) :
    SelfDelimiting (fun b => S (f b)) fun b => write (f b) := by
  intro a b inA inB x y same
  obtain ⟨value, rest⟩ := reads (f a) (f b) inA inB x y same
  exact ⟨injective value, rest⟩

/-- A list is read item by item up to a letter that starts no item. -/
theorem SelfDelimiting.list {stop : γ} (reads : SelfDelimiting S write)
    (starts : ∀ a, S a → ∃ c rest, write a = c :: rest ∧ c ≠ stop) :
    SelfDelimiting (fun items : List α => ∀ a ∈ items, S a) fun items => items.flatMap write ++ [stop] := by
  have apart : ∀ a, S a → ∀ x y z, stop :: x ≠ write a ++ y ++ z := by
    intro a inA x y z same
    obtain ⟨c, rest, text, other⟩ := starts a inA
    rw [text] at same
    exact other (List.cons.inj same).1.symm
  intro items
  induction items with
  | nil =>
    intro others _ inB x y same
    cases others with
    | nil =>
      simp only [List.flatMap_nil, List.nil_append, List.cons_append] at same
      exact ⟨rfl, (List.cons.inj same).2⟩
    | cons b others =>
      simp only [List.flatMap_nil, List.nil_append, List.cons_append, List.flatMap_cons, List.append_assoc] at same
      rw [← List.append_assoc] at same
      exact absurd same (apart b (inB b List.mem_cons_self) x _ _)
  | cons a items ih =>
    intro others inA inB x y same
    cases others with
    | nil =>
      simp only [List.flatMap_nil, List.nil_append, List.cons_append, List.flatMap_cons, List.append_assoc] at same
      rw [← List.append_assoc] at same
      exact absurd same.symm (apart a (inA a List.mem_cons_self) y _ _)
    | cons b others =>
      simp only [List.flatMap_cons, List.append_assoc] at same
      obtain ⟨head, rest⟩ := reads a b (inA a List.mem_cons_self) (inB b List.mem_cons_self) _ _ same
      rw [← List.append_assoc, ← List.append_assoc] at rest
      obtain ⟨tail, left⟩ := ih others (fun c member => inA c (List.mem_cons_of_mem a member))
        (fun c member => inB c (List.mem_cons_of_mem b member)) x y rest
      exact ⟨by rw [head, tail], left⟩

end HopHop.Delimited
