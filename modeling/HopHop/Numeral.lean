import Mathlib.Data.Nat.Digits.Defs

namespace HopHop

/-- A place-value notation: its base, and the byte that each digit is written as, with a way back. -/
structure Numerals where
  base : Nat
  digit : Nat → UInt8
  value : UInt8 → Nat
  one_lt : 1 < base
  value_digit : ∀ d < base, value (digit d) = d

namespace Numerals

variable (N : Numerals)

/-- The canonical numeral of a number: its digits, highest first, and a single digit for zero. -/
def text (n : Nat) : List UInt8 := if n = 0 then [N.digit 0] else (N.base.digits n).reverse.map N.digit

/-- The last `k` digits of a number, the first of them perhaps zero. -/
def lastDigits (n : Nat) : Nat → List UInt8
  | 0 => []
  | k + 1 => N.digit (n / N.base ^ k % N.base) :: lastDigits n k

variable {N}

theorem text_small {n : Nat} (small : n < N.base) : N.text n = [N.digit n] := by
  rw [text]
  split
  · rename_i zero
    rw [zero]
  · rename_i nonzero
    rw [Nat.digits_of_lt N.base n nonzero small]
    rfl

theorem text_step {n : Nat} (large : N.base ≤ n) : N.text n = N.text (n / N.base) ++ [N.digit (n % N.base)] := by
  have one_lt := N.one_lt
  have quotient : n / N.base ≠ 0 := (Nat.div_pos large (by omega)).ne'
  rw [text, text, if_neg (by omega), if_neg quotient, Nat.digits_def' one_lt (by omega), List.reverse_cons,
    List.map_append]
  rfl

theorem lastDigits_succ (n k : Nat) :
    N.lastDigits n (k + 1) = N.lastDigits (n / N.base) k ++ [N.digit (n % N.base)] := by
  induction k with
  | zero => simp only [lastDigits, pow_zero, Nat.div_one, List.nil_append]
  | succ k ih =>
    rw [lastDigits, ih, lastDigits, List.cons_append, Nat.div_div_eq_div_mul, pow_succ, Nat.mul_comm]

/-- All the digits of a number make up its numeral. -/
theorem lastDigits_eq_text {n k : Nat} (enough : n < N.base ^ (k + 1)) (needed : k = 0 ∨ N.base ^ k ≤ n) :
    N.lastDigits n (k + 1) = N.text n := by
  have one_lt := N.one_lt
  induction k generalizing n with
  | zero =>
    rw [zero_add, pow_one] at enough
    rw [text_small enough, lastDigits, pow_zero, Nat.div_one, Nat.mod_eq_of_lt enough]
    rfl
  | succ k ih =>
    have first : N.base ^ (k + 1) ≤ n := needed.resolve_left k.succ_ne_zero
    have large : N.base ≤ n := (Nat.le_self_pow k.succ_ne_zero N.base).trans first
    rw [lastDigits_succ, text_step large, ih (Nat.div_lt_of_lt_mul (by rwa [← pow_succ']))]
    exact Or.inr ((Nat.le_div_iff_mul_le (by omega)).mpr (by rwa [← pow_succ]))

theorem length_lastDigits (n k : Nat) : (N.lastDigits n k).length = k := by
  induction k with
  | zero => rfl
  | succ k ih => rw [lastDigits, List.length_cons, ih]

theorem lt_length_text {n k : Nat} (large : N.base ^ k ≤ n) : k < (N.text n).length := by
  have one_lt := N.one_lt
  induction k generalizing n with
  | zero =>
    by_cases small : n < N.base
    · rw [text_small small]
      exact Nat.one_pos
    · rw [text_step (by omega), List.length_append]
      exact Nat.succ_pos _
  | succ k ih =>
    have whole : N.base ≤ n := (Nat.le_self_pow k.succ_ne_zero N.base).trans large
    have shorter := ih ((Nat.le_div_iff_mul_le (by omega)).mpr (by rwa [← pow_succ]) : N.base ^ k ≤ n / N.base)
    rw [text_step whole, List.length_append, List.length_singleton]
    omega

theorem text_injective : Function.Injective N.text := by
  have one_lt := N.one_lt
  have values (n : Nat) : Nat.ofDigits N.base ((N.text n).reverse.map N.value) = n := by
    rw [text]
    split
    · rename_i zero
      rw [zero, List.reverse_singleton, List.map_singleton, N.value_digit 0 (by omega), Nat.ofDigits_singleton]
    · have back : ((N.base.digits n).map N.digit).map N.value = N.base.digits n := by
        rw [List.map_map]
        refine (List.map_congr_left fun d member => ?_).trans (List.map_id _)
        exact N.value_digit d (Nat.digits_lt_base one_lt member)
      rw [← List.map_reverse, List.reverse_reverse, back, Nat.ofDigits_digits]
  intro n m same
  rw [← values n, same, values]

theorem exists_digit {n : Nat} {byte : UInt8} (member : byte ∈ N.text n) : ∃ d < N.base, N.digit d = byte := by
  have one_lt := N.one_lt
  rw [text] at member
  split at member
  · exact ⟨0, by omega, (List.mem_singleton.mp member).symm⟩
  · obtain ⟨d, inDigits, same⟩ := List.mem_map.mp member
    exact ⟨d, Nat.digits_lt_base one_lt (List.mem_reverse.mp inDigits), same⟩

end Numerals

end HopHop
