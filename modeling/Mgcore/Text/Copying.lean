import Mgcore.Base
import Mgcore.Lib.Memory

/-!
# Copying bytes

`kmemcpy` and `kmemmove` of `src/kernel/string.c` on one memory, with the pointer they return and the memory they leave.
`kmemcpy` goes upwards, which is right unless the destination starts inside the source; `kmemmove` then goes downwards.
-/

namespace Mgcore
open Lib

def kmemcpy (mem : Nat → UInt8) (dst src size : Nat) : Nat × (Nat → UInt8) := (dst, copy wordSize mem dst src size)

def kmemmove (mem : Nat → UInt8) (dst src size : Nat) : Nat × (Nat → UInt8) :=
  (dst,
    if dst < src then copy wordSize mem dst src size
    else if src < dst then copyDown wordSize mem dst src size
    else mem)

/-- The destination holds what the source held before, and everything else is as it was. -/
structure Moved (mem after : Nat → UInt8) (dst src size : Nat) : Prop where
  inside : ∀ i, i < size → after (dst + i) = mem (src + i)
  outside : ∀ a, a < dst ∨ dst + size ≤ a → after a = mem a

theorem Moved.unique {mem first second : Nat → UInt8} {dst src size : Nat} (one : Moved mem first dst src size)
    (other : Moved mem second dst src size) : first = second := by
  funext a
  by_cases outside : a < dst ∨ dst + size ≤ a
  · rw [one.outside a outside, other.outside a outside]
  · obtain ⟨i, rfl⟩ := Nat.exists_eq_add_of_le (show dst ≤ a by omega)
    rw [one.inside i (by omega), other.inside i (by omega)]

section
variable (mem : Nat → UInt8) {dst src size : Nat} (target : dst + size ≤ wordSize) (source : src + size ≤ wordSize)
include target source

theorem kmemcpy_moved (safe : dst ≤ src ∨ src + size ≤ dst) : Moved mem (kmemcpy mem dst src size).2 dst src size := by
  have order : dst ≤ src ∧ src + size ≤ wordSize ∨ src + size ≤ dst := safe.imp_left fun below => ⟨below, source⟩
  exact ⟨fun i => copy_inside target order, fun a => copy_of_outside target⟩

theorem kmemmove_moved : Moved mem (kmemmove mem dst src size).2 dst src size := by
  unfold kmemmove
  rcases Nat.lt_trichotomy dst src with below | same | above
  · rw [if_pos below]
    exact kmemcpy_moved mem target source (Or.inl (Nat.le_of_lt below))
  · rw [if_neg (by omega), if_neg (by omega), same]
    exact ⟨fun _ _ => rfl, fun _ _ => rfl⟩
  · rw [if_neg (by omega), if_pos above]
    exact ⟨fun i => copyDown_inside target (Nat.le_of_lt above), fun a => copyDown_of_outside target⟩

end

/-- However the ranges overlap, `kmemmove` moves the bytes, and so does `kmemcpy` unless the destination starts inside the
source. -/
theorem kmemmove_under_overlap (mem : Nat → UInt8) (dst src size : Nat) (target : dst + size ≤ wordSize)
    (source : src + size ≤ wordSize) :
    (kmemmove mem dst src size).1 = dst ∧ Moved mem (kmemmove mem dst src size).2 dst src size ∧
      (dst ≤ src ∨ src + size ≤ dst ∨ dst + size ≤ src → kmemcpy mem dst src size = kmemmove mem dst src size) := by
  have moved := kmemmove_moved mem target source
  refine ⟨rfl, moved, fun apart => ?_⟩
  have copied := kmemcpy_moved mem target source (by omega)
  exact Prod.ext rfl (copied.unique moved)

/-- Both ways of overlapping, by one byte and by all but one. -/
theorem kmemmove_under_overlap_sample :
    let mem : Nat → UInt8 := fun a => a.toUInt8
    Moved mem (kmemmove mem 11 10 4).2 11 10 4 ∧ kmemcpy mem 10 13 4 = kmemmove mem 10 13 4 := by
  intro mem
  have up := kmemmove_under_overlap mem 11 10 4 (by decide) (by decide)
  have down := kmemmove_under_overlap mem 10 13 4 (by decide) (by decide)
  exact ⟨up.2.1, down.2.2 (Or.inl (by decide))⟩

end Mgcore
