import Mathlib.Algebra.Group.Nat.Even
import Mathlib.Data.Nat.ModEq
import Mgcore.Lib.Bytes

/-!
# End-around carry

A sum in base `b + 1` whose carry is added back at the low end is a sum modulo `b`, except that zero has two forms: `0` is
the sum of zeros only, and every other multiple of `b` folds to `b`. `SameSum` keeps both facts. `wordSum` is the sum of
the big-endian words of a byte string.
-/

namespace Mgcore.Lib

structure SameSum (b m n : Nat) : Prop where
  modEq : m ≡ n [MOD b]
  zero : m = 0 ↔ n = 0

section
variable {b m n k : Nat}

theorem SameSum.refl (b n : Nat) : SameSum b n n := ⟨rfl, Iff.rfl⟩

theorem SameSum.trans (first : SameSum b m n) (second : SameSum b n k) : SameSum b m k :=
  ⟨first.modEq.trans second.modEq, first.zero.trans second.zero⟩

theorem carried_sameSum (b n : Nat) : SameSum b (n % (b + 1) + n / (b + 1)) n := by
  have split : n % (b + 1) + (b + 1) * (n / (b + 1)) = n := Nat.mod_add_div n (b + 1)
  constructor
  · calc
      n % (b + 1) + n / (b + 1) ≡ n % (b + 1) + n / (b + 1) + b * (n / (b + 1)) [MOD b] :=
        (Nat.add_mul_mod_self_left _ b _).symm
      _ = n % (b + 1) + (b + 1) * (n / (b + 1)) := by rw [Nat.add_mul, Nat.one_mul, Nat.add_assoc, Nat.add_comm (b * _)]
      _ = n := split
  · constructor
    · intro none
      obtain ⟨low, high⟩ := Nat.add_eq_zero_iff.mp none
      rw [← split, low, high]
      rfl
    · rintro rfl
      rw [Nat.zero_mod, Nat.zero_div]

/-- Among the sums that fit in one digit only the largest is the negative zero. -/
theorem SameSum.full_iff (same : SameSum b m n) (fits : m ≤ b) (positive : 0 < b) : m = b ↔ n ≠ 0 ∧ b ∣ n := by
  have divides : b ∣ m ↔ b ∣ n := same.modEq.dvd_iff (Nat.dvd_refl b)
  constructor
  · rintro rfl
    exact ⟨fun none => Nat.ne_of_gt positive (same.zero.mpr none), divides.mp (Nat.dvd_refl m)⟩
  · rintro ⟨some, whole⟩
    have nonzero : 0 < m := Nat.pos_of_ne_zero fun none => some (same.zero.mp none)
    exact Nat.le_antisymm fits (Nat.le_of_dvd nonzero (divides.mpr whole))

theorem SameSum.complement (same : SameSum b m n) (sum : m + k = b) (positive : 0 < b) : n + k ≠ 0 ∧ b ∣ n + k := by
  constructor
  · intro none
    obtain ⟨noSum, noRest⟩ := Nat.add_eq_zero_iff.mp none
    rw [noRest, same.zero.mpr noSum] at sum
    exact Nat.ne_of_lt positive sum
  · have folded : n + k ≡ b [MOD b] := (same.modEq.add_right k).symm.trans (congrArg (· % b) sum)
    exact (folded.dvd_iff (Nat.dvd_refl b)).mpr (Nat.dvd_refl b)

end

/-! ## Words -/

def wordSum : List UInt8 → Nat
  | [] => 0
  | [high] => high.toNat * 2 ^ 8
  | high :: low :: rest => high.toNat * 2 ^ 8 + low.toNat + wordSum rest

theorem wordSum_append {front : List UInt8} (aligned : Even front.length) (back : List UInt8) :
    wordSum (front ++ back) = wordSum front + wordSum back := by
  fun_induction wordSum front with
  | case1 => exact (Nat.zero_add _).symm
  | case2 high => exact absurd aligned Nat.not_even_one
  | case3 high low rest ih =>
      have even : Even rest.length := by
        rw [List.length_cons, List.length_cons, Nat.add_assoc] at aligned
        exact (Nat.even_add.mp aligned).mpr even_two
      rw [List.cons_append, List.cons_append, wordSum, ih even, ← Nat.add_assoc]

theorem wordSum_be16Store (value : UInt16) (rest : List UInt8) :
    wordSum (be16Store value ++ rest) = value.toNat + wordSum rest := by
  have bound := value.toNat_lt
  change (value >>> 8).toUInt8.toNat * 2 ^ 8 + value.toUInt8.toNat + wordSum rest = _
  simp only [UInt16.toNat_toUInt8, UInt16.toNat_shiftRight, Nat.shiftRight_eq_div_pow, UInt16.reduceToNat,
    Nat.reduceMod, Nat.reducePow]
  omega

end Mgcore.Lib
