import Mathlib

/-!
# `Lib.Word` — checked 64-bit arithmetic and alignment masks

Addresses are `Nat`s below `2 ^ 64`. `add64` is the addition of a build that checks for overflow: there is no
result when the sum does not fit, and the machine stops. Masking off the low bits of a word rounds it down to
a multiple of a power of two (`and_mask_eq`).
-/

namespace OxideOs.Word

open Nat

/-- The sum, when it fits into 64 bits. -/
def add64 (a b : Nat) : Option Nat := if a + b < 2 ^ 64 then some (a + b) else none

theorem add64_eq_some {a b c : Nat} : add64 a b = some c ↔ a + b < 2 ^ 64 ∧ c = a + b := by
  unfold add64
  split
  next h =>
    simp only [Option.some.injEq, h, true_and, eq_comm]
  next h =>
    simp only [reduceCtorEq, h, false_and]

theorem add64_of_lt {a b : Nat} (h : a + b < 2 ^ 64) : add64 a b = some (a + b) := if_pos h

/-- The mask that clears the low `k` bits of a word is `2 ^ 64 - 2 ^ k`. -/
theorem mask_eq {k : Nat} (hk : k ≤ 64) : 2 ^ 64 - 1 - (2 ^ k - 1) = 2 ^ k * (2 ^ (64 - k) - 1) := by
  have hpow : 2 ^ k * 2 ^ (64 - k) = 2 ^ 64 := by
    rw [← pow_add, Nat.add_sub_cancel' hk]
  have hpos := Nat.two_pow_pos k
  rw [Nat.mul_sub]
  omega

/-- **Masking off the low `k` bits rounds down to a multiple of `2 ^ k`.** -/
theorem and_mask_eq {k x : Nat} (hk : k ≤ 64) (hx : x < 2 ^ 64) :
    x &&& (2 ^ 64 - 1 - (2 ^ k - 1)) = 2 ^ k * (x / 2 ^ k) := by
  rw [mask_eq hk]
  refine eq_of_testBit_eq fun i => ?_
  rw [testBit_and, testBit_two_pow_mul, testBit_two_pow_mul, testBit_two_pow_sub_one, testBit_div_two_pow]
  by_cases hki : k ≤ i
  · rw [Nat.sub_add_cancel hki, decide_eq_true hki, Bool.true_and, Bool.true_and]
    by_cases hi : i < 64
    · rw [decide_eq_true (Nat.sub_lt_sub_right hki hi), Bool.and_true]
    · have hbig : x < 2 ^ i := lt_of_lt_of_le hx (Nat.pow_le_pow_right zero_lt_two (not_lt.mp hi))
      rw [testBit_lt_two_pow hbig, Bool.false_and]
  · rw [decide_eq_false hki, Bool.false_and, Bool.false_and, Bool.and_false]

end OxideOs.Word
