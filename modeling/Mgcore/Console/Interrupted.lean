import Mgcore.Console.Keyboard
import Mgcore.Console.Queue
import Mathlib.Data.List.ReduceOption

/-!
# The input ring and the keyboard interrupt

`console_try_read_char` as a machine with a program point: the keyboard interrupt may come between any two of its statements,
and calls `console_enqueue_input` itself. The ring stays a queue as long as no interrupt types into the short stretch where
the reader has a byte of the serial port on its way into the ring; there it loses what is in the ring, or a byte.
-/

namespace Mgcore

open Lib

/-! ## The machine -/

/-- Where `console_try_read_char` stands, down to `console_enqueue_input` and `input_buffer_pop`. -/
inductive ReadPoint
  | idle
  | enqueue (c : UInt8)
  | store (c : UInt8)
  | bump (c : UInt8)
  | pop
  | load
  | advance (c : UInt8)

/-- `answers` lists what the calls have returned. -/
structure ReaderState where
  typing : Typing := {}
  point : ReadPoint := .idle
  answers : List (Option UInt8) := []

inductive Traffic
  | step
  | byte (c : UInt8)
  | irq (data : Option UInt8)

def ReaderState.at (s : ReaderState) (point : ReadPoint) (console : Console) : ReaderState :=
  { s with typing := { s.typing with console }, point }

/-- The next statement of `console_try_read_char`. -/
def consoleTryReadStep (s : ReaderState) : ReaderState :=
  let console := s.typing.console
  match s.point with
  | .idle =>
      match console.serial with
      | [] => s.at .pop console
      | c :: rest => s.at (.enqueue c) { console with serial := rest }
  | .enqueue c => if inputBufferIsFull console then s.at .pop console else s.at (.store c) console
  | .store c =>
      s.at (.bump c) { console with inputBuffer := Function.update console.inputBuffer console.inputWriteIndex c }
  | .bump _ => s.at .pop { console with inputWriteIndex := (console.inputWriteIndex + 1) % inputCapacity }
  | .pop =>
      if console.inputReadIndex = console.inputWriteIndex then
        { s.at .idle console with answers := s.answers ++ [none] }
      else s.at .load console
  | .load => s.at (.advance (console.inputBuffer console.inputReadIndex)) console
  | .advance c =>
      { s.at .idle { console with inputReadIndex := (console.inputReadIndex + 1) % inputCapacity } with
        answers := s.answers ++ [some c] }

def trafficStep (s : ReaderState) : Traffic → ReaderState
  | .step => consoleTryReadStep s
  | .byte c => s.at s.point { s.typing.console with serial := s.typing.console.serial ++ [c] }
  | .irq data => { s with typing := keyboardHandleIrq s.typing data }

/-- The call that no interrupt divides. -/
theorem consoleTryRead_undivided (s : ReaderState) (idle : s.point = .idle) :
    ∃ k, k ≤ 7 ∧ consoleTryReadStep^[k] s =
      { s.at .idle (consoleTryReadChar s.typing.console).2 with
        answers := s.answers ++ [(consoleTryReadChar s.typing.console).1] } := by
  obtain ⟨⟨keyboard, console, typed⟩, _, answers⟩ := s
  cases idle
  have pops (console : Console) : ∃ k, k ≤ 3 ∧
      consoleTryReadStep^[k] { typing := { keyboard, console, typed }, point := .pop, answers } =
        { typing := { keyboard, console := (inputBufferPop console).2, typed }, point := .idle,
          answers := answers ++ [(inputBufferPop console).1] } := by
    by_cases empty : console.inputReadIndex = console.inputWriteIndex
    · refine ⟨1, by decide, ?_⟩
      simp [consoleTryReadStep, ReaderState.at, inputBufferPop, empty]
    · refine ⟨3, Nat.le_refl 3, ?_⟩
      simp [consoleTryReadStep, ReaderState.at, inputBufferPop, empty]
  cases serial : console.serial with
  | nil =>
      obtain ⟨k, short, popped⟩ := pops console
      refine ⟨k + 1, by omega, ?_⟩
      rw [Function.iterate_succ_apply]
      simp only [consoleTryReadStep, consoleTryReadChar, serial, ReaderState.at]
      exact popped
  | cons c rest =>
      obtain ⟨k, short, popped⟩ := pops (consoleEnqueueInput { console with serial := rest } c)
      by_cases full : inputBufferIsFull console
      · have still : inputBufferIsFull { console with serial := rest } := full
        refine ⟨k + 2, by omega, ?_⟩
        rw [Function.iterate_add_apply]
        simp only [consoleTryReadChar, serial]
        refine Eq.trans (congrArg _ ?_) popped
        rw [consoleEnqueueInput, if_pos still]
        simp [consoleTryReadStep, ReaderState.at, serial, still]
      · have room : ¬inputBufferIsFull { console with serial := rest } := full
        refine ⟨k + 4, by omega, ?_⟩
        rw [Function.iterate_add_apply]
        simp only [consoleTryReadChar, serial]
        refine Eq.trans (congrArg _ ?_) popped
        rw [consoleEnqueueInput, if_neg room]
        simp [consoleTryReadStep, ReaderState.at, serial, room]

/-! ## The queue -/

/-- The ring as a queue of at most 127 bytes: `accepted` lists what has been put in. -/
structure InputQueue where
  keyboard : Keyboard := {}
  serial : List UInt8 := []
  queue : List UInt8 := []
  accepted : List UInt8 := []
  point : ReadPoint := .idle
  answers : List (Option UInt8) := []

def InputQueue.push (t : InputQueue) (c : UInt8) : InputQueue :=
  if t.queue.length < 127 then { t with queue := t.queue ++ [c], accepted := t.accepted ++ [c] } else t

/-- The reader puts a byte in with one step and takes one out with one step. -/
def InputQueue.read (t : InputQueue) : InputQueue :=
  match t.point with
  | .idle =>
      match t.serial with
      | [] => { t with point := .pop }
      | c :: rest => { t with serial := rest, point := .enqueue c }
  | .enqueue c => { t with point := if t.queue.length < 127 then .store c else .pop }
  | .store c => { t with point := .bump c }
  | .bump c => { t.push c with point := .pop }
  | .pop => if t.queue = [] then { t with point := .idle, answers := t.answers ++ [none] } else { t with point := .load }
  | .load => { t with point := .advance (t.queue.headD 0) }
  | .advance c => { t with queue := t.queue.tail, point := .idle, answers := t.answers ++ [some c] }

def InputQueue.step (t : InputQueue) : Traffic → InputQueue
  | .step => t.read
  | .byte c => { t with serial := t.serial ++ [c] }
  | .irq none => t
  | .irq (some b) =>
      let c := t.keyboard.character (scanCode b)
      let t := { t with keyboard := t.keyboard.next (scanCode b) }
      if c ≠ 0 then t.push c else t

/-- The stretch between the test and the bump: a byte of the reader is on its way. While it is not stored yet, a key does no
harm as long as a place is left over for it. -/
def KeyFits (length : Nat) : ReadPoint → Prop
  | .store _ => length + 1 < 127
  | .bump _ => False
  | _ => True

instance (length : Nat) : DecidablePred (KeyFits length)
  | .store _ => inferInstanceAs (Decidable (_ < _))
  | .bump _ => isFalse id
  | .idle | .enqueue _ | .pop | .load | .advance _ => isTrue trivial

def Undivided (t : InputQueue) : Traffic → Prop
  | .irq (some b) => t.keyboard.character (scanCode b) ≠ 0 → KeyFits t.queue.length t.point
  | _ => True

instance (t : InputQueue) : DecidablePred (Undivided t)
  | .irq (some _) => inferInstanceAs (Decidable (_ → _))
  | .irq none | .step | .byte _ => isTrue trivial

/-! ## The ring follows the queue -/

/-- What the reader's statements have established at a point. -/
def ReadLocal (console : Console) (queue : List UInt8) : ReadPoint → Prop
  | .store _ => queue.length < 127
  | .bump c => queue.length < 127 ∧ console.inputBuffer console.inputWriteIndex = c
  | .load => queue ≠ []
  | .advance c => ∃ rest, queue = c :: rest
  | _ => True

structure FollowsQueue (s : ReaderState) (t : InputQueue) : Prop where
  holds : s.typing.console.Queues t.queue
  keyboard : s.typing.keyboard = t.keyboard
  serial : s.typing.console.serial = t.serial
  point : s.point = t.point
  answers : s.answers = t.answers
  here : ReadLocal s.typing.console t.queue t.point
  -- what was put in is what was read, in this order, and what is still there
  conserved : t.accepted = t.answers.reduceOption ++ t.queue

section
variable {s : ReaderState} {t : InputQueue}

theorem FollowsQueue.start (c : Console) (keyboard : Keyboard) :
    FollowsQueue { typing := { keyboard, console := c.clearInput } } { keyboard, serial := c.serial } :=
  ⟨c.clearInput_queues, rfl, rfl, rfl, rfl, trivial, rfl⟩

theorem Console.Queues.enqueue {c : Console} {queue : List UInt8} (holds : c.Queues queue) (b : UInt8) :
    (consoleEnqueueInput c b).Queues (if queue.length < 127 then queue ++ [b] else queue) := by
  have pushed := (inputStep_simulates (.push b) holds).2
  simp only [boundedQueue] at pushed
  split_ifs at pushed ⊢
  · exact pushed
  · exact pushed

/-- An interrupt types a byte. -/
theorem FollowsQueue.push (follows : FollowsQueue s t) (k : UInt8) (undivided : KeyFits t.queue.length t.point) :
    FollowsQueue { s with typing := s.typing.enqueue k } (t.push k) := by
  obtain ⟨holds, keyboard, serial, point, answers, here, conserved⟩ := follows
  have queues := holds.enqueue k
  have waits : (consoleEnqueueInput s.typing.console k).serial = t.serial := by
    rw [← serial, consoleEnqueueInput]
    split_ifs
    · rfl
    · rfl
  unfold InputQueue.push
  split_ifs at queues ⊢ with short
  · refine ⟨queues, keyboard, waits, point, answers, ?_, by rw [conserved, List.append_assoc]⟩
    dsimp only
    cases at' : t.point with
    | idle | enqueue c | pop => trivial
    | store c =>
        rw [at'] at undivided
        simp only [ReadLocal, List.length_append, List.length_singleton]
        exact undivided
    | bump c =>
        rw [at'] at undivided
        exact undivided.elim
    | load => exact List.append_ne_nil_of_right_ne_nil t.queue (List.cons_ne_nil k [])
    | advance c =>
        rw [at'] at here
        obtain ⟨rest, same⟩ := here
        exact ⟨rest ++ [k], by rw [same]; rfl⟩
  · refine ⟨queues, keyboard, waits, point, answers, ?_, conserved⟩
    cases at' : t.point with
    | idle | enqueue c | pop => trivial
    | store c =>
        rw [at'] at here
        exact absurd here short
    | bump c =>
        rw [at'] at undivided
        exact undivided.elim
    | load | advance c =>
        rw [at'] at here
        exact here

theorem FollowsQueue.read (follows : FollowsQueue s t) : FollowsQueue (consoleTryReadStep s) t.read := by
  obtain ⟨⟨k, console, typed⟩, point, answers⟩ := s
  obtain ⟨keyboard, serial, queue, accepted, _, _⟩ := t
  obtain ⟨holds, sameKeyboard, sameSerial, rfl, rfl, here, conserved⟩ := follows
  dsimp only at holds sameKeyboard sameSerial here conserved
  have room : queue.length < 128 := holds.room
  cases point with
  | idle =>
      cases serial with
      | nil =>
          simp only [consoleTryReadStep, InputQueue.read, sameSerial]
          exact ⟨holds, sameKeyboard, sameSerial, rfl, rfl, trivial, conserved⟩
      | cons c rest =>
          simp only [consoleTryReadStep, InputQueue.read, sameSerial]
          exact ⟨holds, sameKeyboard, rfl, rfl, rfl, trivial, conserved⟩
  | enqueue c =>
      by_cases full : inputBufferIsFull console
      · have long : ¬queue.length < 127 := by
          rw [holds.full_iff.mp full]
          decide
        simp only [consoleTryReadStep, InputQueue.read, if_pos full, if_neg long]
        exact ⟨holds, sameKeyboard, sameSerial, rfl, rfl, trivial, conserved⟩
      · have short : queue.length < 127 := by
          have := mt holds.full_iff.mpr full
          omega
        simp only [consoleTryReadStep, InputQueue.read, if_neg full, if_pos short]
        exact ⟨holds, sameKeyboard, sameSerial, rfl, rfl, short, conserved⟩
  | store c =>
      have short : queue.length < 127 := here
      have stored : Function.update console.inputBuffer console.inputWriteIndex c console.inputWriteIndex = c :=
        Function.update_self ..
      exact ⟨Holds.stage holds (Nat.succ_lt_succ short) c, sameKeyboard, sameSerial, rfl, rfl, ⟨short, stored⟩, conserved⟩
  | bump c =>
      obtain ⟨short, stored⟩ := here
      have pushed := Holds.bump holds (Nat.succ_lt_succ short)
      rw [stored] at pushed
      simp only [consoleTryReadStep, InputQueue.read, InputQueue.push, if_pos short]
      exact ⟨pushed, sameKeyboard, sameSerial, rfl, rfl, trivial, by rw [conserved, List.append_assoc]⟩
  | pop =>
      by_cases empty : queue = []
      · have same := (Holds.empty_iff holds).mpr empty
        simp only [consoleTryReadStep, InputQueue.read, if_pos same, if_pos empty]
        refine ⟨holds, sameKeyboard, sameSerial, rfl, rfl, trivial, ?_⟩
        rw [conserved]
        simp [List.reduceOption_append]
      · have apart := mt (Holds.empty_iff holds).mp empty
        simp only [consoleTryReadStep, InputQueue.read, if_neg apart, if_neg empty]
        exact ⟨holds, sameKeyboard, sameSerial, rfl, rfl, empty, conserved⟩
  | load =>
      cases queue with
      | nil => exact absurd rfl here
      | cons c rest =>
          refine ⟨holds, sameKeyboard, sameSerial, ?_, rfl, ⟨rest, rfl⟩, conserved⟩
          exact congrArg ReadPoint.advance (Holds.head holds)
  | advance c =>
      obtain ⟨rest, rfl⟩ := here
      refine ⟨Holds.pop holds, sameKeyboard, sameSerial, rfl, rfl, trivial, ?_⟩
      show accepted = (answers ++ [some c]).reduceOption ++ rest
      rw [conserved]
      simp [List.reduceOption_append]

theorem FollowsQueue.step (follows : FollowsQueue s t) {event : Traffic} (undivided : Undivided t event) :
    FollowsQueue (trafficStep s event) (t.step event) := by
  cases event with
  | step => exact follows.read
  | byte c =>
      obtain ⟨holds, keyboard, serial, point, answers, here, conserved⟩ := follows
      refine ⟨holds, keyboard, congrArg (· ++ [c]) serial, point, answers, ?_, conserved⟩
      obtain ⟨_, _, _, _, at', _⟩ := t
      cases at' with
      | idle | enqueue b | store b | bump b | pop | load | advance b => exact here
  | irq data =>
      cases data with
      | none => exact follows
      | some b =>
          rw [trafficStep, keyboardHandleIrq_eq, InputQueue.step, follows.keyboard]
          have moved : FollowsQueue { s with typing := { s.typing with keyboard := t.keyboard.next (scanCode b) } }
              { t with keyboard := t.keyboard.next (scanCode b) } :=
            ⟨follows.holds, rfl, follows.serial, follows.point, follows.answers, follows.here, follows.conserved⟩
          dsimp only
          split_ifs with types
          · exact moved.push _ (undivided types)
          · exact moved

end

/-- In any interleaving that types nothing into the stretch between test and bump, the reader, the ring and the queue agree. -/
theorem input_ring_under_interrupts (c : Console) (keyboard : Keyboard) (events : List Traffic)
    (undivided : Along (fun (t : InputQueue) event => some (t.step event)) Undivided { keyboard, serial := c.serial } events) :
    FollowsQueue (events.foldl trafficStep { typing := { keyboard, console := c.clearInput } })
      (events.foldl InputQueue.step { keyboard, serial := c.serial }) := by
  have follows := FollowsQueue.start c keyboard
  generalize ({ typing := { keyboard, console := c.clearInput } } : ReaderState) = s at follows ⊢
  generalize ({ keyboard, serial := c.serial } : InputQueue) = t at follows undivided ⊢
  induction events generalizing s t with
  | nil => exact follows
  | cons event events ih => exact ih _ _ (follows.step undivided.1) (undivided.2 _ rfl)

/-- A key is typed while a byte of the serial port is between the test and the store. -/
theorem input_ring_under_interrupts_key :
    let events := [.byte 0x7A, .step, .step, .irq (some 0x1E), .step, .step, .step, .step, .step]
    FollowsQueue (events.foldl trafficStep { typing := { console := ({} : Console).clearInput } })
        (events.foldl InputQueue.step {}) ∧
      (events.foldl InputQueue.step {}).accepted = [0x61, 0x7A] ∧
      (events.foldl InputQueue.step {}).answers = [some 0x61] :=
  ⟨input_ring_under_interrupts {} {} _ (by decide), by decide, by decide⟩

/-- What a key does in the stretch. With one place left the ring is empty afterwards and all that was in it is lost; else
the byte of the reader is overwritten and a byte from behind the queue is read in its place. -/
theorem divided_enqueue_loses {s : ReaderState} {queue : List UInt8} (holds : s.typing.console.Queues queue) {b c : UInt8}
    (types : s.typing.keyboard.character (scanCode b) ≠ 0) :
    (s.point = .store c → queue.length = 126 →
        ([.irq (some b), .step, .step].foldl trafficStep s).typing.console.Queues []) ∧
      (s.point = .bump c → queue.length = 126 → ([.irq (some b), .step].foldl trafficStep s).typing.console.Queues []) ∧
      (s.point = .bump c → queue.length < 126 →
        ([.irq (some b), .step].foldl trafficStep s).typing.console.Queues (queue ++ [s.typing.keyboard.character (scanCode b),
          s.typing.console.inputBuffer ((s.typing.console.inputWriteIndex + 1) % inputCapacity)])) := by
  obtain ⟨typing, point, answers⟩ := s
  dsimp only at holds types
  have typed : keyboardHandleIrq typing (some b) =
      ({ typing with keyboard := typing.keyboard.next (scanCode b) } : Typing).enqueue
        (typing.keyboard.character (scanCode b)) := by
    rw [keyboardHandleIrq_eq]
    exact if_pos types
  simp only [List.foldl_cons, List.foldl_nil, trafficStep, typed]
  have queues := holds.enqueue (typing.keyboard.character (scanCode b))
  refine ⟨?_, ?_, ?_⟩
  · rintro rfl last
    rw [if_pos (by omega)] at queues
    exact Holds.bump_full queues (by simp [last, inputCapacity]) _
  · rintro rfl last
    rw [if_pos (by omega)] at queues
    exact Holds.bump_full queues (by simp [last, inputCapacity]) _
  · rintro rfl short
    rw [if_pos (by omega)] at queues
    have bumped := Holds.bump queues (by simp only [List.length_append, List.length_singleton, inputCapacity]; omega)
    have room : ¬inputBufferIsFull typing.console := by
      rw [holds.full_iff]
      omega
    have enqueued : consoleEnqueueInput typing.console (typing.keyboard.character (scanCode b)) = { typing.console with
        inputBuffer := Function.update typing.console.inputBuffer typing.console.inputWriteIndex
          (typing.keyboard.character (scanCode b))
        inputWriteIndex := (typing.console.inputWriteIndex + 1) % inputCapacity } := if_neg room
    have below : typing.console.inputWriteIndex < inputCapacity := Holds.last_lt holds
    have behind : (typing.console.inputWriteIndex + 1) % inputCapacity ≠ typing.console.inputWriteIndex := by
      unfold inputCapacity at below ⊢
      omega
    rw [enqueued] at bumped
    dsimp only at bumped
    rw [Function.update_of_ne behind, List.append_assoc] at bumped
    show Console.Queues _ _
    rw [Typing.enqueue, enqueued]
    exact bumped

theorem divided_enqueue_loses_first :
    let s : ReaderState := { typing := { console := ({} : Console).clearInput }, point := .bump 0x7A }
    ([.irq (some 0x1E), .step].foldl trafficStep s).typing.console.Queues [0x61, 0] := by
  have holds : ({} : Console).clearInput.Queues [] := ({} : Console).clearInput_queues
  have types : ({} : Keyboard).character (scanCode 0x1E) ≠ 0 := by decide
  have loses := (@divided_enqueue_loses { typing := { console := ({} : Console).clearInput }, point := .bump 0x7A } [] holds 0x1E
    0x7A types).2.2 rfl (by decide)
  exact loses

end Mgcore
