import Mathlib.Algebra.Group.Nat.Even
import Mathlib.Logic.Function.Basic

/-!
# A stack that grows down

A memory of 64-bit words at byte addresses that wrap. `Stacked mem sp words` says that the words lie at the stack pointer,
the top one first; a push and a pop then act on the list, as long as the stack does not go around the address space.
-/

namespace Mgcore.Lib

variable {α : Type*} {mem : BitVec 64 → α} {sp : BitVec 64} {word : α} {words : List α}

def slot (sp : BitVec 64) (i : Nat) : BitVec 64 := sp + BitVec.ofNat 64 (8 * i)

def Stacked (mem : BitVec 64 → α) (sp : BitVec 64) (words : List α) : Prop :=
  ∀ i (h : i < words.length), mem (slot sp i) = words[i]

@[simp] theorem slot_zero (sp : BitVec 64) : slot sp 0 = sp := by simp [slot]

theorem slot_succ (sp : BitVec 64) (i : Nat) : slot (sp - 8) (i + 1) = slot sp i := by
  unfold slot
  rw [Nat.mul_add, BitVec.ofNat_add]
  bv_omega

theorem slot_add (sp : BitVec 64) (i : Nat) : slot (sp + 8) i = slot sp (i + 1) := by
  unfold slot
  rw [Nat.mul_add, BitVec.ofNat_add]
  bv_omega

theorem slot_ne (sp : BitVec 64) {i : Nat} (short : i + 1 < 2 ^ 61) : slot (sp - 8) (i + 1) ≠ sp - 8 := by
  unfold slot
  bv_omega

theorem Stacked.nil : Stacked mem sp ([] : List α) := fun _ h => absurd h (Nat.not_lt_zero _)

theorem Stacked.top (stack : Stacked mem sp (word :: words)) : mem sp = word := by
  have first := stack 0 (Nat.succ_pos _)
  rwa [slot_zero] at first

theorem Stacked.pop (stack : Stacked mem sp (word :: words)) : Stacked mem (sp + 8) words := by
  intro i h
  rw [slot_add]
  exact stack (i + 1) (by simpa using h)

theorem Stacked.push (stack : Stacked mem sp words) (short : words.length < 2 ^ 61) (word : α) :
    Stacked (Function.update mem (sp - 8) word) (sp - 8) (word :: words) := by
  intro i h
  cases i with
  | zero => simp
  | succ i =>
      have inside : i < words.length := by simpa using h
      rw [Function.update_of_ne (slot_ne sp (by omega)), slot_succ]
      exact stack i inside

theorem Stacked.congr {other : BitVec 64 → α} (stack : Stacked mem sp words)
    (same : ∀ i, i < words.length → other (slot sp i) = mem (slot sp i)) : Stacked other sp words :=
  fun i h => (same i h).trans (stack i h)

end Mgcore.Lib
