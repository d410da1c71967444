import Mathlib.Algebra.BigOperators.Group.List.Basic
import Mathlib.Data.Nat.ModEq
import Mgcore.Lib.Memory

/-!
# Records in a ring

Records of different sizes lie one after the other in a ring of `n` places. A record that starts near the end is
not split, it runs on past the end; the next one starts where it would if the ring had wrapped. `extent` is the
room a list of records takes, and positions are counted without wrapping, so that the place of a position is its
remainder. As long as the live records and a new one fit into the ring together, the new one overwrites none of them.
-/

namespace Mgcore.Lib

section
variable {ρ β : Type*} (w n : Nat) (size : ρ → Nat) (bytes : ρ → List β)

def extent (records : List ρ) : Nat := (records.map size).sum

@[simp] theorem extent_nil : extent size [] = 0 := rfl

@[simp] theorem extent_cons (r : ρ) (records : List ρ) : extent size (r :: records) = size r + extent size records :=
  List.sum_cons

@[simp] theorem extent_append (first last : List ρ) :
    extent size (first ++ last) = extent size first + extent size last := by
  simp [extent]

/-- The records lie in `mem`, the first of them at position `start`. -/
def Laid (mem : Nat → β) : Nat → List ρ → Prop
  | _, [] => True
  | start, r :: records => load w mem (start % n) (bytes r).length = bytes r ∧ Laid mem (start + size r) records

variable {w n size bytes}

theorem laid_append {mem : Nat → β} {start : Nat} {first last : List ρ} :
    Laid w n size bytes mem start (first ++ last) ↔
      Laid w n size bytes mem start first ∧ Laid w n size bytes mem (start + extent size first) last := by
  induction first generalizing start with
  | nil => simp [Laid]
  | cons r first ih =>
      rw [List.cons_append, Laid, Laid, ih, extent_cons, Nat.add_assoc, and_assoc]

theorem laid_congr {mem mem' : Nat → β} {start : Nat} {records : List ρ}
    (same : ∀ p r, start ≤ p → p + size r ≤ start + extent size records → 
      load w mem' (p % n) (bytes r).length = load w mem (p % n) (bytes r).length)
    (laid : Laid w n size bytes mem start records) : Laid w n size bytes mem' start records := by
  induction records generalizing start with
  | nil => trivial
  | cons r records ih =>
      rw [extent_cons] at same
      refine ⟨?_, ih ?_ laid.2⟩
      · rw [same start r (Nat.le_refl start) (by omega)]
        exact laid.1
      · intro p q after inside
        exact same p q (by omega) (by omega)

/-- Two positions less than `n` apart have different places, also past the end of the ring. -/
theorem places_apart {p q i j : Nat} (order : p + i < q + j) (near : q + j < p + i + n) : p % n + i ≠ q % n + j := by
  intro same
  have equal : p + i ≡ q + j [MOD n] := by
    calc p + i ≡ p % n + i [MOD n] := (Nat.mod_modEq p n).symm.add_right i
      _ = q % n + j := same
      _ ≡ q + j [MOD n] := (Nat.mod_modEq q n).add_right j
  have divides : n ∣ q + j - (p + i) := (Nat.modEq_iff_dvd' (Nat.le_of_lt order)).mp equal
  have := Nat.le_of_dvd (by omega) divides
  omega

theorem Laid.store (fits : ∀ r, (bytes r).length ≤ size r) (addressed : ∀ r, n + (bytes r).length ≤ w) (ring : 0 < n)
    {mem : Nat → β} {start : Nat} {records : List ρ} (laid : Laid w n size bytes mem start records) (r : ρ)
    (room : extent size records + size r ≤ n) :
    Laid w n size bytes (store w mem ((start + extent size records) % n) (bytes r)) start (records ++ [r]) := by
  have below (p : Nat) : p % n < n := Nat.mod_lt p ring
  have here := below (start + extent size records)
  have size' := fits r
  have inside := addressed r
  refine laid_append.mpr ⟨laid_congr ?_ laid, ?_, trivial⟩
  · intro p q after before
    have place := below p
    have length := fits q
    have space := addressed q
    apply load_congr (by omega) (by omega)
    intro i less
    rcases Nat.lt_or_ge (p % n + i) ((start + extent size records) % n) with outside | above
    · exact store_of_lt (by omega) outside
    · apply store_of_ge (by omega)
      by_contra overlap
      refine places_apart (p := p) (q := start + extent size records) (i := i)
        (j := p % n + i - (start + extent size records) % n) (n := n) (by omega) (by omega) (by omega)
  · apply List.ext_getElem (by simp)
    intro i less _
    rw [load_getElem (by omega), store_inside (by omega)]

theorem extent_eq_zero_of_wrapped {start : Nat} {records : List ρ} (room : extent size records < n)
    (wrapped : (start + extent size records) % n = start % n) : extent size records = 0 := by
  have equal : start + 0 ≡ start + extent size records [MOD n] := wrapped.symm
  have divides : n ∣ extent size records - 0 :=
    (Nat.modEq_iff_dvd' (Nat.zero_le _)).mp (Nat.ModEq.add_left_cancel' start equal)
  exact Nat.eq_zero_of_dvd_of_lt divides room

end

end Mgcore.Lib
