import Mgcore.Console.Input
import Mgcore.Lib.Fifo

/-!
# The input ring

Between two calls of `console_clear` the ring of `src/kernel/console.c` is a queue of at most 127 bytes. The keyboard
interrupt and the serial port put bytes in with `console_enqueue_input`, `console_try_read_char` takes them out with
`input_buffer_pop`.
-/

namespace Mgcore

open Lib

/-- What `console_clear` does to the ring; it leaves the bytes in the buffer. -/
def Console.clearInput (c : Console) : Console := { c with inputReadIndex := 0, inputWriteIndex := 0 }

def inputStep (c : Console) : QueueOp UInt8 → QueueAnswer UInt8 × Console
  | .push b => (if inputBufferIsFull c then .refused b else .accepted b, consoleEnqueueInput c b)
  | .pop =>
      match inputBufferPop c with
      | (none, c) => (.empty, c)
      | (some b, c) => (.popped b, c)

def Console.Queues (c : Console) (queue : List UInt8) : Prop :=
  Holds inputCapacity c.inputBuffer c.inputReadIndex c.inputWriteIndex queue

theorem Console.clearInput_queues (c : Console) : c.clearInput.Queues [] := holds_nil (Nat.zero_lt_succ 127)

theorem Console.Queues.full_iff {c : Console} {queue : List UInt8} (holds : c.Queues queue) :
    inputBufferIsFull c ↔ queue.length = 127 :=
  (Holds.full_iff holds).trans (by unfold inputCapacity; omega)

theorem inputStep_simulates {c : Console} {queue : List UInt8} (op : QueueOp UInt8) (holds : c.Queues queue) :
    (inputStep c op).1 = (boundedQueue 127 queue op).1 ∧
      (inputStep c op).2.Queues (boundedQueue 127 queue op).2 := by
  have room : queue.length < 128 := holds.room
  cases op with
  | push b =>
      by_cases full : inputBufferIsFull c
      · have long : ¬queue.length < 127 := by
          rw [holds.full_iff.mp full]
          decide
        simp only [inputStep, boundedQueue, consoleEnqueueInput, if_pos full, if_neg long]
        exact ⟨trivial, holds⟩
      · have short : queue.length < 127 := by
          have := mt holds.full_iff.mpr full
          omega
        simp only [inputStep, boundedQueue, consoleEnqueueInput, if_neg full, if_pos short]
        exact ⟨trivial, Holds.push holds (Nat.succ_lt_succ short) b⟩
  | pop =>
      cases queue with
      | nil =>
          have empty := (Holds.empty_iff holds).mpr rfl
          simp only [inputStep, boundedQueue, inputBufferPop, if_pos empty]
          exact ⟨trivial, holds⟩
      | cons b queue =>
          have nonempty := mt (Holds.empty_iff holds).mp (List.cons_ne_nil b queue)
          simp only [inputStep, boundedQueue, inputBufferPop, if_neg nonempty, Holds.head holds]
          exact ⟨trivial, Holds.pop holds⟩

theorem inputRun_simulates (c : Console) (ops : List (QueueOp UInt8)) :
    (trace inputStep c.clearInput ops).1 = (trace (boundedQueue 127) [] ops).1 ∧
      (trace inputStep c.clearInput ops).2.Queues (trace (boundedQueue 127) [] ops).2 := by
  have keeps : ∀ (mode : Unit) c queue op, Console.Queues c queue → True →
      (inputStep c op).1 = (boundedQueue 127 queue op).1 ∧
        (inputStep c op).2.Queues (boundedQueue 127 queue op).2 :=
    fun _ _ _ op holds _ => inputStep_simulates op holds
  have guarded : Guarded inputStep (fun (_ : Unit) _ => ()) (fun _ _ _ => True) () c.clearInput ops := guarded_true ..
  obtain ⟨answers, _, holds⟩ := trace_simulates keeps c.clearInput_queues guarded
  exact ⟨answers, holds⟩

/-- Every answer of the ring is that of the queue; what was accepted is what came out followed by what is unread. -/
theorem input_ring_is_bounded_fifo (c : Console) (ops : List (QueueOp UInt8)) :
    let reached := trace inputStep c.clearInput ops
    let queue := trace (boundedQueue 127) [] ops
    reached.1 = queue.1 ∧
      reached.2.inputReadIndex < 128 ∧ reached.2.inputWriteIndex < 128 ∧
      acceptedIn reached.1 = poppedIn reached.1 ++ queue.2 ∧
      ∀ b, ((inputStep reached.2 (.push b)).1 = .refused b ↔
          (acceptedIn reached.1).length = (poppedIn reached.1).length + 127) ∧
        ((inputStep reached.2 (.push b)).1 = .refused b → consoleEnqueueInput reached.2 b = reached.2) := by
  obtain ⟨answers, holds⟩ := inputRun_simulates c ops
  have conserved := boundedQueue_conserves 127 [] ops
  rw [List.nil_append, ← answers] at conserved
  refine ⟨answers, Holds.first_lt holds, Holds.last_lt holds, conserved, fun b => ?_⟩
  have refused : (inputStep (trace inputStep c.clearInput ops).2 (.push b)).1 = .refused b ↔
      inputBufferIsFull (trace inputStep c.clearInput ops).2 := by
    simp [inputStep]
  rw [refused]
  constructor
  · rw [holds.full_iff, conserved, List.length_append]
    omega
  · intro full
    rw [consoleEnqueueInput, if_pos full]

end Mgcore
