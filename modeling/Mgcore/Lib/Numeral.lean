import Mathlib.Data.Nat.Digits.Lemmas

/-!
# Numerals

`numeral symbol base n` is `n` written in base `base`, most significant digit first and with no leading zero, in the
symbols of an arbitrary alphabet; `readNumeral` reads such a text digit by digit, from the left.
-/

namespace Mgcore.Lib

section
variable {α : Type*} (symbol : Nat → α) (base : Nat)

def numeral (n : Nat) : List α := if n = 0 then [symbol 0] else ((Nat.digits base n).map symbol).reverse

variable {symbol base}

theorem mem_numeral (large : 1 < base) {n : Nat} {c : α} (member : c ∈ numeral symbol base n) :
    ∃ d, d < base ∧ c = symbol d := by
  unfold numeral at member
  split_ifs at member with zero
  · exact ⟨0, by omega, List.mem_singleton.mp member⟩
  · obtain ⟨d, digit, rfl⟩ := List.mem_map.mp (List.mem_reverse.mp member)
    exact ⟨d, Nat.digits_lt_base large digit, rfl⟩

theorem numeral_length_le_iff (large : 1 < base) {n k : Nat} (positive : 0 < k) :
    (numeral symbol base n).length ≤ k ↔ n < base ^ k := by
  unfold numeral
  split_ifs with zero
  · rw [zero]
    exact iff_of_true positive (Nat.pow_pos (by omega))
  · rw [List.length_reverse, List.length_map]
    exact Nat.digits_length_le_iff large n

theorem numeral_length_le (large : 1 < base) {n k : Nat} (positive : 0 < k) (small : n < base ^ k) :
    (numeral symbol base n).length ≤ k :=
  (numeral_length_le_iff large positive).mpr small

theorem numeral_ne_nil (n : Nat) : numeral symbol base n ≠ [] := by
  unfold numeral
  split_ifs with zero
  · exact List.cons_ne_nil _ _
  · simpa using Nat.digits_ne_nil_iff_ne_zero.mpr zero

/-- The first symbol of a numeral of two digits or more is not that of zero. -/
theorem numeral_head (large : 1 < base) (apart : ∀ d, d < base → symbol d = symbol 0 → d = 0) {n : Nat}
    (leading : (numeral symbol base n).head? = some (symbol 0)) : numeral symbol base n = [symbol 0] := by
  unfold numeral at leading ⊢
  split_ifs at leading ⊢ with zero
  · rfl
  · rw [List.head?_reverse, List.getLast?_map, Option.map_eq_some_iff] at leading
    obtain ⟨d, last, same⟩ := leading
    have filled : Nat.digits base n ≠ [] := Nat.digits_ne_nil_iff_ne_zero.mpr zero
    rw [List.getLast?_eq_getLast_of_ne_nil filled, Option.some.injEq] at last
    have nonzero := Nat.getLast_digit_ne_zero base zero
    rw [last] at nonzero
    have digit : d < base := Nat.digits_lt_base large (by rw [← last]; exact List.getLast_mem filled)
    exact absurd (apart d digit same) nonzero

end

def readNumeral {α : Type*} (value : α → Nat) (base : Nat) (start : Nat) (text : List α) : Nat :=
  text.foldl (fun n c => n * base + value c) start

section
variable {α : Type*} {value : α → Nat} {base : Nat}

@[simp] theorem readNumeral_nil (start : Nat) : readNumeral value base start [] = start := rfl

@[simp] theorem readNumeral_cons (start : Nat) (c : α) (text : List α) :
    readNumeral value base start (c :: text) = readNumeral value base (start * base + value c) text := rfl

theorem le_readNumeral (positive : 0 < base) (start : Nat) (text : List α) :
    start ≤ readNumeral value base start text := by
  induction text generalizing start with
  | nil => exact Nat.le_refl start
  | cons c text ih =>
      have step : start ≤ start * base + value c := Nat.le_add_right_of_le (Nat.le_mul_of_pos_right start positive)
      exact Nat.le_trans step (ih _)

theorem readNumeral_numeral {symbol : Nat → α} (large : 1 < base) (inverse : ∀ d, d < base → value (symbol d) = d)
    (n : Nat) : readNumeral value base 0 (numeral symbol base n) = n := by
  unfold numeral
  split_ifs with zero
  · rw [readNumeral_cons, readNumeral_nil, inverse 0 (by omega), zero, Nat.zero_mul]
  · have digits : ∀ d ∈ Nat.digits base n, value (symbol d) = d := fun d member =>
      inverse d (Nat.digits_lt_base large member)
    have fold (l : List Nat) (each : ∀ d ∈ l, value (symbol d) = d) :
        (l.map symbol).foldr (fun c m => m * base + value c) 0 = Nat.ofDigits base l := by
      induction l with
      | nil => rfl
      | cons d l ih =>
          rw [List.map_cons, List.foldr_cons, ih fun e member => each e (List.mem_cons_of_mem d member),
            each d List.mem_cons_self, Nat.ofDigits_cons, Nat.mul_comm, Nat.add_comm]
    rw [readNumeral, List.foldl_reverse, fold _ digits, Nat.ofDigits_digits]

end

end Mgcore.Lib
