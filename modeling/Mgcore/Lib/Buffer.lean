import Mathlib.Data.List.Basic
import Mathlib.Logic.Function.Basic

/-!
# Buffers with a record of the stores

A buffer of a C function, together with the indices that have been stored to. Nothing stops a store behind the end of
the array; `Within n` says that no store of a run left an array of `n` cells.
-/

namespace Mgcore.Lib

variable {α : Type*}

structure Buffer (α : Type*) where
  cells : Nat → α
  stored : List Nat := []

namespace Buffer

def put (b : Buffer α) (i : Nat) (value : α) : Buffer α :=
  { cells := Function.update b.cells i value, stored := i :: b.stored }

/-- `for (i = 0; i < n; ++i) b[start + i] = text[i];` -/
def write (b : Buffer α) (start : Nat) : List α → Buffer α
  | [] => b
  | c :: text => (b.put start c).write (start + 1) text

def Within (b : Buffer α) (n : Nat) : Prop := ∀ i ∈ b.stored, i < n

/-- The buffer starts with `text`. -/
def Holds (b : Buffer α) (text : List α) : Prop := ∀ i c, text[i]? = some c → b.cells i = c

variable {b : Buffer α} {n : Nat} {text : List α}

theorem holds_nil (b : Buffer α) : b.Holds [] := by
  intro i c found
  cases found

theorem within_empty (cells : Nat → α) (n : Nat) : Within ⟨cells, []⟩ n := by
  intro i mem
  cases mem

theorem Within.put (inside : b.Within n) {i : Nat} (bound : i < n) (value : α) : (b.put i value).Within n := by
  intro j mem
  rcases List.mem_cons.mp mem with rfl | earlier
  · exact bound
  · exact inside j earlier

theorem Holds.put (holds : b.Holds text) (value : α) : (b.put text.length value).Holds (text ++ [value]) := by
  intro i c found
  change Function.update b.cells text.length value i = c
  by_cases last : i = text.length
  · subst last
    rw [List.getElem?_concat_length, Option.some.injEq] at found
    rw [Function.update_self, found]
  · have inside : i < text.length := by
      obtain ⟨bound, -⟩ := List.getElem?_eq_some_iff.mp found
      rw [List.length_append, List.length_singleton] at bound
      omega
    rw [List.getElem?_append_left inside] at found
    rw [Function.update_of_ne last]
    exact holds i c found

theorem Holds.left {more : List α} (holds : b.Holds (text ++ more)) : b.Holds text := by
  intro i c found
  have inside := (List.getElem?_eq_some_iff.mp found).1
  exact holds i c (by rw [List.getElem?_append_left inside, found])

theorem Holds.last (holds : b.Holds text) (filled : text ≠ []) : text.getLast? = some (b.cells (text.length - 1)) := by
  rw [List.getLast?_eq_getElem?]
  have bound : text.length - 1 < text.length := Nat.sub_one_lt (mt List.length_eq_zero_iff.mp filled)
  rw [List.getElem?_eq_getElem bound, holds _ _ (List.getElem?_eq_getElem bound)]

theorem Holds.write (holds : b.Holds text) (more : List α) : (b.write text.length more).Holds (text ++ more) := by
  induction more generalizing b text with
  | nil =>
      rw [List.append_nil]
      exact holds
  | cons c more ih =>
      have next := ih (holds.put c)
      rw [List.length_append, List.append_assoc] at next
      exact next

theorem write_append (b : Buffer α) (start : Nat) (text more : List α) :
    b.write start (text ++ more) = (b.write start text).write (start + text.length) more := by
  induction text generalizing b start with
  | nil => rfl
  | cons c text ih =>
      rw [List.cons_append, write, ih, write, List.length_cons, Nat.add_assoc, Nat.add_comm 1]

theorem write_stored (b : Buffer α) (start : Nat) (text : List α) (i : Nat) :
    i ∈ (b.write start text).stored ↔ i ∈ b.stored ∨ start ≤ i ∧ i < start + text.length := by
  induction text generalizing b start with
  | nil =>
      rw [write, List.length_nil]
      constructor
      · exact Or.inl
      · rintro (earlier | ⟨low, high⟩)
        · exact earlier
        · omega
  | cons c text ih =>
      rw [write, ih, put, List.mem_cons, List.length_cons]
      constructor
      · rintro ((rfl | earlier) | later)
        · right
          omega
        · exact Or.inl earlier
        · right
          omega
      · rintro (earlier | later)
        · exact Or.inl (Or.inr earlier)
        · by_cases first : i = start
          · exact Or.inl (Or.inl first)
          · right
            omega

theorem within_write_iff (start : Nat) (filled : text ≠ []) :
    (b.write start text).Within n ↔ b.Within n ∧ start + text.length ≤ n := by
  have positive := List.length_pos_iff.mpr filled
  constructor
  · intro inside
    constructor
    · intro i mem
      exact inside i ((write_stored b start text i).mpr (Or.inl mem))
    · have last := inside (start + text.length - 1) ((write_stored b start text _).mpr (Or.inr (by omega)))
      omega
  · rintro ⟨before, fits⟩ i mem
    rcases (write_stored b start text i).mp mem with earlier | ⟨-, high⟩
    · exact before i earlier
    · omega

end Buffer

end Mgcore.Lib
