import Mathlib.Data.List.Basic
import Mathlib.Data.Nat.ModEq
import Mathlib.Logic.Function.Basic
import Mgcore.Lib.Ring
import Mgcore.Lib.Run

/-!
# A queue in a ring with one free place

`n` places, an index of the first element and one of the next free place. The indices are equal when the queue is
empty, so one place stays free and the queue holds at most `n - 1` elements. The places outside the queue are
arbitrary. `boundedQueue` is the queue that the ring stands for, with the answer to each operation.
-/

namespace Mgcore.Lib

section
variable {β : Type*} {n : Nat} {buffer : Nat → β} {first last : Nat} {queue : List β}

structure Holds (n : Nat) (buffer : Nat → β) (first last : Nat) (queue : List β) : Prop where
  first_lt : first < n
  room : queue.length < n
  last_eq : last = (first + queue.length) % n
  cells : ∀ i (inside : i < queue.length), buffer ((first + i) % n) = queue[i]

theorem Holds.last_lt (holds : Holds n buffer first last queue) : last < n := by
  rw [holds.last_eq]
  exact Nat.mod_lt _ (Nat.zero_lt_of_lt holds.first_lt)

theorem holds_nil {i : Nat} (inside : i < n) : Holds n buffer i i ([] : List β) where
  first_lt := inside
  room := Nat.zero_lt_of_lt inside
  last_eq := (Nat.mod_eq_of_lt inside).symm
  cells _ h := absurd h (Nat.not_lt_zero _)

-- Less than a whole turn leads back to the start only if it has no length.
theorem turn_eq_zero {k : Nat} (inside : first < n) (short : k < n) (back : (first + k) % n = first) : k = 0 := by
  rcases Nat.lt_or_ge (first + k) n with straight | wrapped
  · rw [Nat.mod_eq_of_lt straight] at back
    omega
  · rw [Nat.mod_eq_sub_mod wrapped, Nat.mod_eq_of_lt (by omega)] at back
    omega

theorem Holds.empty_iff (holds : Holds n buffer first last queue) : first = last ↔ queue = [] := by
  constructor
  · intro same
    apply List.eq_nil_of_length_eq_zero
    apply turn_eq_zero holds.first_lt holds.room
    rw [← holds.last_eq, same]
  · rintro rfl
    rw [holds.last_eq]
    exact (Nat.mod_eq_of_lt holds.first_lt).symm

theorem Holds.full_iff (holds : Holds n buffer first last queue) : (last + 1) % n = first ↔ queue.length + 1 = n := by
  have next : (last + 1) % n = (first + (queue.length + 1)) % n := by
    rw [holds.last_eq, Nat.mod_add_mod, Nat.add_assoc]
  rw [next]
  have room := holds.room
  constructor
  · intro back
    by_contra short
    have := turn_eq_zero holds.first_lt (by omega) back
    omega
  · intro whole
    rw [whole, Nat.add_mod_right]
    exact Nat.mod_eq_of_lt holds.first_lt

theorem Holds.push (holds : Holds n buffer first last queue) (short : queue.length + 1 < n) (b : β) :
    Holds n (Function.update buffer last b) first ((last + 1) % n) (queue ++ [b]) where
  first_lt := holds.first_lt
  room := by simpa using short
  last_eq := by
    rw [holds.last_eq, Nat.mod_add_mod, List.length_append, List.length_singleton, Nat.add_assoc]
  cells := by
    intro i inside
    rcases Nat.lt_or_ge i queue.length with old | new
    · have apart : (first + i) % n ≠ last := by
        rw [holds.last_eq]
        exact places_apart (p := first + i) (q := first + queue.length) (i := 0) (j := 0) (by omega) (by omega)
      rw [Function.update_of_ne apart, List.getElem_append_left old]
      exact holds.cells i old
    · simp only [List.length_append, List.length_singleton] at inside
      obtain rfl : i = queue.length := by omega
      rw [← holds.last_eq, Function.update_self]
      simp

/-- The free place behind the queue may be written before the index moves. -/
theorem Holds.stage (holds : Holds n buffer first last queue) (short : queue.length + 1 < n) (b : β) :
    Holds n (Function.update buffer last b) first last queue where
  first_lt := holds.first_lt
  room := holds.room
  last_eq := holds.last_eq
  cells := by
    intro i inside
    have cell := (holds.push short b).cells i (by simp only [List.length_append, List.length_singleton]; omega)
    rwa [List.getElem_append_left inside] at cell

/-- The index moves over what stands in the free place. -/
theorem Holds.bump (holds : Holds n buffer first last queue) (short : queue.length + 1 < n) :
    Holds n buffer first ((last + 1) % n) (queue ++ [buffer last]) := by
  have pushed := holds.push short (buffer last)
  rwa [Function.update_eq_self] at pushed

/-- From a full ring it moves onto the first place, and the ring is empty. -/
theorem Holds.bump_full (holds : Holds n buffer first last queue) (full : queue.length + 1 = n) (buffer' : Nat → β) :
    Holds n buffer' first ((last + 1) % n) [] := by
  rw [holds.full_iff.mpr full]
  exact holds_nil holds.first_lt

theorem Holds.head {b : β} (holds : Holds n buffer first last (b :: queue)) : buffer first = b := by
  have cell := holds.cells 0 (by simp)
  rwa [Nat.add_zero, Nat.mod_eq_of_lt holds.first_lt] at cell

theorem Holds.pop {b : β} (holds : Holds n buffer first last (b :: queue)) :
    Holds n buffer ((first + 1) % n) last queue where
  first_lt := Nat.mod_lt _ (Nat.zero_lt_of_lt holds.first_lt)
  room := Nat.lt_of_succ_lt holds.room
  last_eq := by
    rw [holds.last_eq, Nat.mod_add_mod, List.length_cons]
    congr 1
    omega
  cells := by
    intro i inside
    have cell := holds.cells (i + 1) (by simpa using inside)
    rw [Nat.mod_add_mod, Nat.add_assoc, Nat.add_comm 1 i]
    simpa using cell

end

/-! ## The bounded queue -/

inductive QueueOp (β : Type*)
  | push (b : β)
  | pop

inductive QueueAnswer (β : Type*)
  | accepted (b : β)
  | refused (b : β)
  | popped (b : β)
  | empty
  deriving DecidableEq

variable {β : Type*}

def boundedQueue (capacity : Nat) (queue : List β) : QueueOp β → QueueAnswer β × List β
  | .push b => if queue.length < capacity then (.accepted b, queue ++ [b]) else (.refused b, queue)
  | .pop =>
      match queue with
      | [] => (.empty, [])
      | b :: rest => (.popped b, rest)

def acceptedIn : List (QueueAnswer β) → List β :=
  List.filterMap fun
    | .accepted b => some b
    | _ => none

def poppedIn : List (QueueAnswer β) → List β :=
  List.filterMap fun
    | .popped b => some b
    | _ => none

/-- What was in the queue and what was accepted is what came out, in this order, and what is still there. -/
theorem boundedQueue_conserves (capacity : Nat) (queue : List β) (ops : List (QueueOp β)) :
    queue ++ acceptedIn (trace (boundedQueue capacity) queue ops).1 =
      poppedIn (trace (boundedQueue capacity) queue ops).1 ++ (trace (boundedQueue capacity) queue ops).2 := by
  induction ops generalizing queue with
  | nil => simp [trace, acceptedIn, poppedIn]
  | cons op ops ih =>
      rw [trace]
      cases op with
      | push b =>
          by_cases room : queue.length < capacity
          · have rest := ih (queue ++ [b])
            simp only [boundedQueue, if_pos room]
            simpa [acceptedIn, poppedIn] using rest
          · simp only [boundedQueue, if_neg room]
            exact ih queue
      | pop =>
          cases queue with
          | nil => exact ih []
          | cons b queue =>
              simp only [boundedQueue]
              simpa [acceptedIn, poppedIn] using ih queue

end Mgcore.Lib
