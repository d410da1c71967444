import Mathlib.Data.Nat.Bitwise

/-!
# Masks and bytes

A mask of `n` ones above `k` zeros rounds down to a multiple of `2 ^ k` and drops everything from bit
`n + k` on. Bytes shifted to different places are joined by `|` as by `+`.
-/

namespace Mgcore.Lib

theorem and_shiftLeft_mask (x n k : Nat) :
    x &&& ((2 ^ n - 1) <<< k) = x % 2 ^ (n + k) / 2 ^ k * 2 ^ k := by
  rw [← Nat.shiftRight_eq_div_pow, ← Nat.shiftLeft_eq]
  apply Nat.eq_of_testBit_eq
  intro i
  simp only [Nat.testBit_and, Nat.testBit_shiftLeft, Nat.testBit_shiftRight, Nat.testBit_mod_two_pow,
    Nat.testBit_two_pow_sub_one]
  by_cases low : k ≤ i
  · have same : k + (i - k) = i := by omega
    simp only [low, decide_true, Bool.true_and, same]
    by_cases high : i < n + k
    · simp [high, show i - k < n by omega]
    · simp [high, show ¬i - k < n by omega]
  · simp [low]

theorem high_or_low (x : Nat) : (x / 2 ^ 8) <<< 8 ||| x % 2 ^ 8 = x := by
  rw [← Nat.shiftLeft_add_eq_or_of_lt (Nat.mod_lt x (by decide)), Nat.shiftLeft_eq]
  omega

theorem or_shifted_bytes {a b c d : Nat} (hb : b < 2 ^ 8) (hc : c < 2 ^ 8) (hd : d < 2 ^ 8) :
    a <<< 24 ||| b <<< 16 ||| c <<< 8 ||| d = a * 2 ^ 24 + b * 2 ^ 16 + c * 2 ^ 8 + d := by
  have first : a <<< 24 ||| b <<< 16 = (a * 2 ^ 8 + b) <<< 16 := by
    rw [← Nat.shiftLeft_add_eq_or_of_lt (by simp only [Nat.shiftLeft_eq]; omega)]
    simp only [Nat.shiftLeft_eq]
    omega
  have second : (a * 2 ^ 8 + b) <<< 16 ||| c <<< 8 = ((a * 2 ^ 8 + b) * 2 ^ 8 + c) <<< 8 := by
    rw [← Nat.shiftLeft_add_eq_or_of_lt (by simp only [Nat.shiftLeft_eq]; omega)]
    simp only [Nat.shiftLeft_eq]
    omega
  rw [first, second, ← Nat.shiftLeft_add_eq_or_of_lt hd, Nat.shiftLeft_eq]
  omega

end Mgcore.Lib
