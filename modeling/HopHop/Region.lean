import Mathlib.Data.List.Basic
import Mathlib.Order.Basic
import Mathlib.Data.Nat.Basic

namespace HopHop

/-- A range of addresses. -/
structure Region where
  base : Nat
  size : Nat
  deriving DecidableEq, Repr

namespace Region

def stop (r : Region) : Nat := r.base + r.size

/-- The region has the byte at an address. -/
def Has (r : Region) (a : Nat) : Prop := r.base ≤ a ∧ a < r.stop

/-- Two regions have no byte in common. -/
def Apart (r s : Region) : Prop := ∀ a, r.Has a → ¬ s.Has a

def Within (lo hi : Nat) (r : Region) : Prop := lo ≤ r.base ∧ r.stop ≤ hi

theorem Apart.symm {r s : Region} (apart : r.Apart s) : s.Apart r := fun a inS inR => apart a inR inS

theorem apart_of_le {r s : Region} (below : r.stop ≤ s.base) : r.Apart s := by
  intro a inR inS
  have upper := inR.2
  have lower := inS.1
  omega

/-- What ends where something else starts is apart from it. -/
theorem Within.apart {r s : Region} {lo mid hi : Nat} (inR : r.Within lo mid) (inS : s.Within mid hi) : r.Apart s :=
  apart_of_le (inR.2.trans inS.1)

theorem Within.mono {r : Region} {lo lo' hi hi' : Nat} (inside : r.Within lo hi) (lower : lo' ≤ lo) (upper : hi ≤ hi') :
    r.Within lo' hi' :=
  ⟨lower.trans inside.1, inside.2.trans upper⟩

/-- Regions between two addresses, the last one first, each above those after it. -/
inductive Piled (lo : Nat) : Nat → List Region → Prop
  | nil {hi : Nat} : lo ≤ hi → Piled lo hi []
  | cons {hi : Nat} {r : Region} {rs : List Region} : r.stop ≤ hi → Piled lo r.base rs → Piled lo hi (r :: rs)

namespace Piled

variable {lo hi : Nat} {rs : List Region}

theorem le (piled : Piled lo hi rs) : lo ≤ hi := by
  induction piled with
  | nil order => exact order
  | cons below _ ih =>
    rw [stop] at below
    omega

theorem mono {hi' : Nat} (piled : Piled lo hi rs) (order : hi ≤ hi') : Piled lo hi' rs := by
  cases piled with
  | nil low => exact .nil (low.trans order)
  | cons below rest => exact .cons (below.trans order) rest

theorem within (piled : Piled lo hi rs) : ∀ r ∈ rs, r.Within lo hi := by
  induction piled with
  | nil _ => intro r inRs; cases inRs
  | @cons hi r rs below rest ih =>
    intro s inRs
    rcases List.mem_cons.mp inRs with first | later
    · rw [first]
      exact ⟨rest.le, below⟩
    · have order : r.base ≤ hi := by rw [stop] at below; omega
      exact (ih s later).mono le_rfl order

/-- No two regions of a pile have a byte in common. -/
theorem apart (piled : Piled lo hi rs) : rs.Pairwise Apart := by
  induction piled with
  | nil _ => exact .nil
  | cons _ rest ih => exact List.pairwise_cons.mpr ⟨fun s later => (apart_of_le (rest.within s later).2).symm, ih⟩

end Piled

/-- Regions that are apart among themselves, in two parts of the memory. -/
theorem apart_append {rs ss : List Region} {lo mid hi : Nat} (lower : rs.Pairwise Apart) (upper : ss.Pairwise Apart)
    (inLower : ∀ r ∈ rs, r.Within lo mid) (inUpper : ∀ s ∈ ss, s.Within mid hi) : (rs ++ ss).Pairwise Apart :=
  List.pairwise_append.mpr ⟨lower, upper, fun r inRs s inSs => (inLower r inRs).apart (inUpper s inSs)⟩

end Region

end HopHop
