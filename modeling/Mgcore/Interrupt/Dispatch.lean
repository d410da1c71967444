import Mathlib.Data.Fintype.Basic
import Mathlib.Tactic.FinCases
import Mgcore.Interrupt.Stubs
import Mgcore.Lib.Run
import Mgcore.Sched.Model

/-!
# Interrupt lines

`interrupt_init` and `interrupt_dispatch` of `src/kernel/interrupt.c`, against the pair of interrupt controllers and the
timer that they program. A controller takes four initialisation words, then a mask. It keeps what the devices request,
offers the first request that is neither masked nor held back by a line in service, and has that line in service from the
acknowledgement until it is told that the interrupt has ended. The processor takes an interrupt only while its interrupt
flag is set, and the gates clear the flag until `iretq`. The drivers are functions on a state that this module knows nothing
of, and each may stop the machine.
-/

namespace Mgcore

open Lib

/-! ## The controllers -/

/-- `expects` is the initialisation word that comes next on the data port, 0 when there is none. -/
structure Pic where
  expects : Nat
  base : UInt8
  mask : UInt8
  requests : Fin 8 → Bool
  inService : Fin 8 → Bool

def Pic.command (p : Pic) (value : UInt8) : Pic :=
  if value &&& 0x10 ≠ 0 then { p with expects := 2, mask := 0, requests := fun _ => false, inService := fun _ => false }
  else if value = 0x20 then
    match (List.finRange 8).find? fun line => p.inService line with
    | some line => { p with inService := Function.update p.inService line false }
    | none => p
  else p

def Pic.data (p : Pic) (value : UInt8) : Pic :=
  match p.expects with
  | 2 => { p with expects := 3, base := value &&& 0xF8 }
  | 3 => { p with expects := 4 }
  | 4 => { p with expects := 0 }
  | _ => { p with mask := value }

def Pic.grants (p : Pic) (line : Fin 8) : Prop :=
  p.mask.toNat.testBit line = false ∧ ∀ i, i ≤ line → p.inService i = false

instance (p : Pic) (line : Fin 8) : Decidable (p.grants line) := inferInstanceAs (Decidable (_ ∧ _))

/-- The line that is offered when the inputs request `asks`. -/
def Pic.next (p : Pic) (asks : Fin 8 → Bool) : Option (Fin 8) := (List.finRange 8).find? fun line => asks line && p.grants line

def Pic.take (p : Pic) (line : Fin 8) : Pic :=
  { p with requests := Function.update p.requests line false, inService := Function.update p.inService line true }

/-- Channel 0, which is written low byte first. -/
structure Pit where
  low : Option UInt8
  reload : Nat

structure Board where
  master : Pic
  slave : Pic
  pit : Pit

def ioOut8 (b : Board) (port : Nat) (value : UInt8) : Board :=
  match port with
  | 0x20 => { b with master := b.master.command value }
  | 0x21 => { b with master := b.master.data value }
  | 0xA0 => { b with slave := b.slave.command value }
  | 0xA1 => { b with slave := b.slave.data value }
  | 0x43 => { b with pit := { b.pit with low := none } }
  | 0x40 =>
      match b.pit.low with
      | none => { b with pit := { b.pit with low := some value } }
      | some low => { b with pit := { low := none, reload := low.toNat + 256 * value.toNat } }
  | _ => b

def ioWait (b : Board) : Board := ioOut8 b 0x80 0

/-- A device requests an interrupt; a request that is there already is the same one. -/
def Board.raise (b : Board) (line : Fin 16) : Board :=
  if h : line.val < 8 then { b with master := { b.master with requests := Function.update b.master.requests ⟨line, h⟩ true } }
  else { b with slave := { b.slave with requests := Function.update b.slave.requests ⟨line - 8, by omega⟩ true } }

/-- Line 2 of the master is the output of the slave. -/
def Board.inputs (b : Board) (line : Fin 8) : Bool :=
  if line = 2 then (b.slave.next b.slave.requests).isSome else b.master.requests line

/-- The vector that the processor is given. -/
def acknowledge (b : Board) : Option (Nat × Board) := do
  let line ← b.master.next b.inputs
  if line = 2 then
    let low ← b.slave.next b.slave.requests
    some (b.slave.base.toNat + low, { b with master := b.master.take 2, slave := b.slave.take low })
  else some (b.master.base.toNat + line, { b with master := b.master.take line })

/-! ## The kernel -/

def picRemap (b : Board) : Board :=
  let b := ioWait (ioOut8 b 0x20 0x11)
  let b := ioWait (ioOut8 b 0xA0 0x11)
  let b := ioWait (ioOut8 b 0x21 0x20)
  let b := ioWait (ioOut8 b 0xA1 0x28)
  let b := ioWait (ioOut8 b 0x21 0x04)
  let b := ioWait (ioOut8 b 0xA1 0x02)
  let b := ioWait (ioOut8 b 0x21 0x01)
  let b := ioWait (ioOut8 b 0xA1 0x01)
  ioOut8 (ioOut8 b 0x21 0xF8) 0xA1 0xE7

def pitProgram (b : Board) (hz : UInt32) : Board :=
  let divisor := ((1193182 : UInt32) / hz).toUInt16
  let b := ioOut8 b 0x43 0x36
  ioOut8 (ioOut8 b 0x40 (divisor &&& 0xFF).toUInt8) 0x40 (divisor >>> 8).toUInt8

/-- The ports that `interrupt_init` writes; the gates are `interruptInit`. -/
def interruptInitPorts (b : Board) : Board := pitProgram (picRemap b) 100

def picSendEoi (b : Board) (vector : Nat) : Board :=
  let b := if vector ≥ 40 then ioOut8 b 0xA0 0x20 else b
  ioOut8 b 0x20 0x20

inductive Device
  | timer | keyboard | net | mouse
  deriving DecidableEq

section
variable {σ ε : Type}

/-- `scheduler_tick`, `keyboard_handle_irq`, `net_handle_irq` and `mouse_handle_irq`. -/
structure Handlers (σ ε : Type) where
  handle : Device → σ → Except ε σ

/-- `entered` is the interrupted program and the vector while an interrupt is being served. -/
structure Wired (σ : Type) where
  board : Board
  interruptsOn : Bool
  entered : Option (Cpu × Nat)
  timerTicks : UInt64
  system : σ

inductive Halt (ε : Type)
  | panic (vector errorCode rip : Word)
  | handler (reason : ε)

def handleAndEnd (h : Handlers σ ε) (m : Wired σ) (device : Device) (vector : Nat) : Except (Halt ε) (Wired σ) :=
  match h.handle device m.system with
  | .ok system => .ok { m with system := system, board := picSendEoi m.board (vector % 2 ^ 8) }
  | .error reason => .error (.handler reason)

def interruptDispatch (h : Handlers σ ε) (m : Wired σ) (frame : InterruptFrame) : Except (Halt ε) (Wired σ) :=
  let vector := frame.vector.toNat
  if vector = 32 then handleAndEnd h { m with timerTicks := m.timerTicks + 1 } .timer vector
  else if vector = 33 then handleAndEnd h m .keyboard vector
  else if vector = 43 then handleAndEnd h m .net vector
  else if vector = 44 then handleAndEnd h m .mouse vector
  else if vector < 32 then .error (.panic frame.vector frame.errorCode frame.rip)
  else .ok m

inductive LineEvent
  | raise (line : Fin 16)
  /-- The program stands at `cpu`, and the processor looks for an interrupt. -/
  | accept (cpu : Cpu)
  /-- From the gate to `iretq`; no driver touches the controllers, so requests may come before or behind it. -/
  | dispatch
  /-- `sti` or `cli` in the program. -/
  | flag (on : Bool)

/-- `none` is a machine that a driver or a panic has stopped. -/
def lineStep (h : Handlers σ ε) (m : Wired σ) : LineEvent → Option (Wired σ)
  | .raise line => some { m with board := m.board.raise line }
  | .accept cpu =>
      if m.interruptsOn then
        match acknowledge m.board with
        | none => some m
        | some (vector, board) => some { m with board, interruptsOn := false, entered := some (cpu, vector) }
      else some m
  | .dispatch =>
      match m.entered with
      | none => some m
      | some (cpu, vector) =>
          match interruptDispatch h m (frameOf cpu (BitVec.ofNat 64 vector) 0) with
          | .ok m => some { m with interruptsOn := true, entered := none }
          | .error _ => none
  | .flag on => some (if m.entered.isSome then m else { m with interruptsOn := on })

/-- Behind `interrupt_init`, before `interrupt_enable`. -/
def initialised (b : Board) (ticks : UInt64) (system : σ) : Wired σ :=
  { board := interruptInitPorts b, interruptsOn := false, entered := none, timerTicks := ticks, system }

/-! ## The lines in use -/

/-- In the order of their priority. -/
def devicesByPriority : List Device := [.timer, .keyboard, .net, .mouse]

def deviceOf (line : Fin 16) : Option Device :=
  match line with
  | 0 => some .timer
  | 1 => some .keyboard
  | 11 => some .net
  | 12 => some .mouse
  | _ => none

def vectorOf : Device → Nat
  | .timer => 32
  | .keyboard => 33
  | .net => 43
  | .mouse => 44

def Board.requested (b : Board) : Device → Bool
  | .timer => b.master.requests 0
  | .keyboard => b.master.requests 1
  | .net => b.slave.requests 3
  | .mouse => b.slave.requests 4

/-- What `interrupt_init` makes of a controller, with the requests that have come since. -/
def idlePic (base mask : UInt8) (requests : Fin 8 → Bool) : Pic :=
  { expects := 0, base, mask, requests, inService := fun _ => false }

def Pic.serving (p : Pic) (line : Fin 8) : Pic := { p with inService := Function.update p.inService line true }

def idleBoard (high low : Fin 8 → Bool) : Board :=
  { master := idlePic 0x20 0xF8 high, slave := idlePic 0x28 0xE7 low, pit := { low := none, reload := 1193182 / 100 } }

/-- The interrupt of the device is in service. -/
def servingBoard (high low : Fin 8 → Bool) : Device → Board
  | .timer => { idleBoard high low with master := (idlePic 0x20 0xF8 high).serving 0 }
  | .keyboard => { idleBoard high low with master := (idlePic 0x20 0xF8 high).serving 1 }
  | .net => { idleBoard high low with master := (idlePic 0x20 0xF8 high).serving 2, slave := (idlePic 0x28 0xE7 low).serving 3 }
  | .mouse => { idleBoard high low with master := (idlePic 0x20 0xF8 high).serving 2, slave := (idlePic 0x28 0xE7 low).serving 4 }

theorem interruptInitPorts_eq (b : Board) : interruptInitPorts b = idleBoard (fun _ => false) fun _ => false := by
  obtain ⟨⟨_, _, _, _, _⟩, ⟨_, _, _, _, _⟩, ⟨_, _⟩⟩ := b
  rfl

theorem Pic.serving_end (base mask : UInt8) (requests : Fin 8 → Bool) (line : Fin 8) :
    ((idlePic base mask requests).serving line).command 0x20 = idlePic base mask requests := by
  have first : ∀ line : Fin 8, (List.finRange 8).find? (Function.update (fun _ => false) line true) = some line := by decide
  have found : (List.finRange 8).find? (fun i => ((idlePic base mask requests).serving line).inService i) = some line := first line
  rw [Pic.command, if_neg (by decide), if_pos rfl, found]
  simp [idlePic, Pic.serving]

/-- When its interrupt has ended, nothing is in service, whatever has been requested meanwhile. -/
theorem picSendEoi_serving (high low : Fin 8 → Bool) (d : Device) :
    picSendEoi (servingBoard high low d) (vectorOf d % 2 ^ 8) = idleBoard high low := by
  have master (line : Fin 8) {vector : Nat} (small : vector < 40) :
      picSendEoi { idleBoard high low with master := (idlePic 0x20 0xF8 high).serving line } vector = idleBoard high low := by
    rw [picSendEoi, if_neg (by omega), ioOut8]
    simp only [idleBoard, Pic.serving_end]
  have slave (line : Fin 8) {vector : Nat} (large : 40 ≤ vector) :
      picSendEoi { idleBoard high low with
        master := (idlePic 0x20 0xF8 high).serving 2
        slave := (idlePic 0x28 0xE7 low).serving line } vector = idleBoard high low := by
    rw [picSendEoi, if_pos large, ioOut8, ioOut8]
    simp only [idleBoard, Pic.serving_end]
  cases d with
  | timer => exact master 0 (by decide)
  | keyboard => exact master 1 (by decide)
  | net => exact slave 3 (by decide)
  | mouse => exact slave 4 (by decide)

theorem find_eight (p : Fin 8 → Bool) : (List.finRange 8).find? p = [0, 1, 2, 3, 4, 5, 6, 7].find? p := rfl

/-- Three lines of the master are open, and two of the slave. -/
theorem idle_next (requests asks : Fin 8 → Bool) :
    (idlePic 0x20 0xF8 requests).next asks = [0, 1, 2].find? asks ∧ (idlePic 0x28 0xE7 requests).next asks = [3, 4].find? asks := by
  have high : ∀ line : Fin 8, decide ((idlePic 0x20 0xF8 requests).grants line) = decide (line < 3) := by
    intro line
    have open' : ∀ line : Fin 8, Nat.testBit (0xF8 : UInt8).toNat line = false ↔ line < 3 := by decide
    exact decide_eq_decide.mpr ((and_iff_left fun _ _ => rfl).trans (open' line))
  have low : ∀ line : Fin 8, decide ((idlePic 0x28 0xE7 requests).grants line) = decide (line = 3 ∨ line = 4) := by
    intro line
    have open' : ∀ line : Fin 8, Nat.testBit (0xE7 : UInt8).toNat line = false ↔ line = 3 ∨ line = 4 := by decide
    exact decide_eq_decide.mpr ((and_iff_left fun _ _ => rfl).trans (open' line))
  constructor
  · rw [Pic.next, find_eight]
    simp only [high, List.find?_cons]
    cases asks 0 <;> cases asks 1 <;> cases asks 2 <;> simp
  · rw [Pic.next, find_eight]
    simp only [low, List.find?_cons]
    cases asks 3 <;> cases asks 4 <;> simp

/-- The requests that are left when the device is acknowledged. -/
def leftHigh (high : Fin 8 → Bool) : Device → Fin 8 → Bool
  | .timer => Function.update high 0 false
  | .keyboard => Function.update high 1 false
  | .net | .mouse => Function.update high 2 false

def leftLow (low : Fin 8 → Bool) : Device → Fin 8 → Bool
  | .timer | .keyboard => low
  | .net => Function.update low 3 false
  | .mouse => Function.update low 4 false

/-- With nothing in service the processor is given the first device that has a request. -/
theorem acknowledge_idle (high low : Fin 8 → Bool) :
    acknowledge (idleBoard high low) = (devicesByPriority.find? (idleBoard high low).requested).map fun d =>
      (vectorOf d, servingBoard (leftHigh high d) (leftLow low d) d) := by
  have slave : (idleBoard high low).slave.next (idleBoard high low).slave.requests = [3, 4].find? low := (idle_next low low).2
  have master (asks : Fin 8 → Bool) : (idleBoard high low).master.next asks = [0, 1, 2].find? asks := (idle_next high asks).1
  have zero : (idleBoard high low).inputs 0 = high 0 := rfl
  have one : (idleBoard high low).inputs 1 = high 1 := rfl
  have two : (idleBoard high low).inputs 2 = ([3, 4].find? low).isSome := by
    rw [Board.inputs, if_pos rfl, slave]
  rw [acknowledge, master, slave]
  have requests : (idleBoard high low).requested .timer = high 0 ∧ (idleBoard high low).requested .keyboard = high 1 ∧
      (idleBoard high low).requested .net = low 3 ∧ (idleBoard high low).requested .mouse = low 4 := ⟨rfl, rfl, rfl, rfl⟩
  simp only [devicesByPriority, List.find?_cons, List.find?_nil, zero, one, two, requests]
  cases high 0 with
  | true => rfl
  | false =>
      cases high 1 with
      | true => rfl
      | false =>
          cases low 3 with
          | true => rfl
          | false =>
              cases low 4 with
              | true => rfl
              | false => rfl

/-! ## Steps -/

/-- Nothing is in service but the device whose interrupt is being served, and the processor takes no other meanwhile. -/
inductive LinesInv (m : Wired σ) : Prop
  | idle {high low : Fin 8 → Bool} (board : m.board = idleBoard high low) (entered : m.entered = none) : LinesInv m
  | serving {high low : Fin 8 → Bool} {cpu : Cpu} (d : Device) (board : m.board = servingBoard high low d)
      (entered : m.entered = some (cpu, vectorOf d)) (off : m.interruptsOn = false) : LinesInv m

def Wired.serves (m : Wired σ) (d : Device) : Bool := m.entered.any fun entered => entered.2 = vectorOf d

theorem vectorOf_injective {d e : Device} (same : vectorOf d = vectorOf e) : d = e := by
  cases d <;> cases e <;> first | rfl | cases same

theorem serves_entered {m : Wired σ} {cpu : Cpu} {d : Device} (entered : m.entered = some (cpu, vectorOf d)) (e : Device) :
    m.serves e = decide (d = e) := by
  rw [Wired.serves, entered, Option.any_some]
  exact decide_eq_decide.mpr ⟨vectorOf_injective, fun same => same ▸ rfl⟩

theorem serves_none {m : Wired σ} (entered : m.entered = none) (e : Device) : m.serves e = false := by
  rw [Wired.serves, entered, Option.any_none]

/-- One request of one device, whatever is in service. -/
theorem raise_requested (b : Board) (line : Fin 16) (d : Device) :
    (b.raise line).requested d = (b.requested d || decide (deviceOf line = some d)) := by
  unfold Board.raise Board.requested
  fin_cases line <;> cases d <;> simp [deviceOf]

theorem raise_idle (high low : Fin 8 → Bool) (line : Fin 16) :
    ∃ high' low', (idleBoard high low).raise line = idleBoard high' low' := by
  unfold Board.raise
  split
  · exact ⟨_, low, rfl⟩
  · exact ⟨high, _, rfl⟩

theorem raise_serving (high low : Fin 8 → Bool) (d : Device) (line : Fin 16) :
    ∃ high' low', (servingBoard high low d).raise line = servingBoard high' low' d := by
  unfold Board.raise
  split
  · cases d <;> exact ⟨_, low, rfl⟩
  · cases d <;> exact ⟨high, _, rfl⟩

theorem servingBoard_requested (high low : Fin 8 → Bool) (d e : Device) :
    (servingBoard high low d).requested e = (idleBoard high low).requested e := by
  cases d <;> cases e <;> rfl

/-- The acknowledged device has no request any more, the others keep theirs. -/
theorem left_requested (high low : Fin 8 → Bool) (d e : Device) :
    (idleBoard (leftHigh high d) (leftLow low d)).requested e = ((idleBoard high low).requested e && decide (d ≠ e)) := by
  cases d <;> cases e <;> simp [Board.requested, idleBoard, idlePic, leftHigh, leftLow]

def countTick (d : Device) (ticks : UInt64) : UInt64 := if d = .timer then ticks + 1 else ticks

theorem interruptDispatch_vector (h : Handlers σ ε) (m : Wired σ) (cpu : Cpu) (d : Device) :
    interruptDispatch h m (frameOf cpu (BitVec.ofNat 64 (vectorOf d)) 0) =
      handleAndEnd h { m with timerTicks := countTick d m.timerTicks } d (vectorOf d) := by
  cases d <;> rfl

/-- `m` has come out of the interrupt of the device. -/
structure Handled (h : Handlers σ ε) (m t : Wired σ) (d : Device) : Prop where
  system : h.handle d m.system = .ok t.system
  ticks : t.timerTicks = countTick d m.timerTicks
  entered : t.entered = none
  on : t.interruptsOn = true
  requested : ∀ e, t.board.requested e = m.board.requested e
  inv : LinesInv t

/-- A driver whose interrupt is in service leaves the controllers with the requests and nothing else. -/
theorem dispatch_serving (h : Handlers σ ε) {m : Wired σ} {high low : Fin 8 → Bool} {cpu : Cpu} {d : Device}
    (board : m.board = servingBoard high low d) (entered : m.entered = some (cpu, vectorOf d)) :
    lineStep h m .dispatch = match h.handle d m.system with
      | .ok next => some
          { board := idleBoard high low, interruptsOn := true, entered := none, timerTicks := countTick d m.timerTicks, system := next }
      | .error _ => none := by
  simp only [lineStep, entered, interruptDispatch_vector, handleAndEnd]
  cases h.handle d m.system with
  | ok next => simp only [board, picSendEoi_serving]
  | error reason => rfl

theorem dispatch_handled (h : Handlers σ ε) {m t : Wired σ} {high low : Fin 8 → Bool} {cpu : Cpu} {d : Device}
    (board : m.board = servingBoard high low d) (entered : m.entered = some (cpu, vectorOf d))
    (steps : lineStep h m .dispatch = some t) : Handled h m t d := by
  rw [dispatch_serving h board entered] at steps
  cases result : h.handle d m.system with
  | error reason =>
      rw [result] at steps
      cases steps
  | ok next =>
      rw [result] at steps
      cases steps
      refine ⟨result, rfl, rfl, rfl, fun e => ?_, .idle rfl rfl⟩
      rw [board, servingBoard_requested]

/-- The processor takes the interrupt of the first device that has a request. -/
theorem accept_idle (h : Handlers σ ε) {m : Wired σ} {high low : Fin 8 → Bool} (board : m.board = idleBoard high low)
    (on : m.interruptsOn = true) (cpu : Cpu) :
    lineStep h m (.accept cpu) = some (match devicesByPriority.find? m.board.requested with
      | none => m
      | some d => { m with
          board := servingBoard (leftHigh high d) (leftLow low d) d, interruptsOn := false, entered := some (cpu, vectorOf d) }) := by
  rw [lineStep, if_pos on, board, acknowledge_idle]
  cases devicesByPriority.find? (idleBoard high low).requested with
  | none => rfl
  | some d => rfl

theorem LinesInv.idle_of_on {m : Wired σ} (inv : LinesInv m) (on : m.interruptsOn = true) :
    m.entered = none ∧ ∃ high low, m.board = idleBoard high low := by
  cases inv with
  | idle board entered => exact ⟨entered, _, _, board⟩
  | serving d board entered off =>
      rw [off] at on
      cases on

theorem LinesInv.step {h : Handlers σ ε} {m t : Wired σ} {event : LineEvent} (inv : LinesInv m)
    (steps : lineStep h m event = some t) : LinesInv t := by
  cases event with
  | raise line =>
      cases steps
      cases inv with
      | @idle high low board entered =>
          obtain ⟨_, _, raised⟩ := raise_idle high low line
          exact .idle (by rw [← raised, ← board]) entered
      | @serving high low cpu d board entered off =>
          obtain ⟨_, _, raised⟩ := raise_serving high low d line
          exact .serving d (by rw [← raised, ← board]) entered off
  | accept cpu =>
      by_cases on : m.interruptsOn = true
      · obtain ⟨-, high, low, board⟩ := inv.idle_of_on on
        rw [accept_idle h board on cpu] at steps
        cases found : devicesByPriority.find? m.board.requested with
        | none =>
            rw [found] at steps
            cases steps
            exact inv
        | some d =>
            rw [found] at steps
            cases steps
            exact .serving d rfl rfl rfl
      · rw [lineStep, if_neg on] at steps
        cases steps
        exact inv
  | dispatch =>
      cases inv with
      | idle board entered =>
          rw [lineStep, entered] at steps
          cases steps
          exact .idle board entered
      | serving d board entered off => exact (dispatch_handled h board entered steps).inv
  | flag on =>
      cases steps
      cases inv with
      | idle board entered =>
          rw [entered]
          exact .idle board rfl
      | serving d board entered off =>
          rw [entered]
          exact .serving d board entered off

/-! ## The ledger -/

inductive Ledger
  | requested (d : Device)
  | served (d : Device)
  deriving DecidableEq

def newRequest (m : Wired σ) (line : Fin 16) : Option Device := (deviceOf line).filter fun d => !m.board.requested d

/-- What an event adds: a request that was not there before, or an interrupt that has been served. -/
def ledger (m : Wired σ) (event : LineEvent) (_ : Wired σ) : List Ledger :=
  match event with
  | .raise line => (newRequest m line).toList.map .requested
  | .dispatch => (devicesByPriority.filter m.serves).map .served
  | .accept _ | .flag _ => []

def Ledger.handled : Ledger → Option Device
  | .served d => some d
  | .requested _ => none

/-- How many requests of the device have not been served to the end: one may wait while one is being served. -/
def Wired.open (m : Wired σ) (d : Device) : Nat := (m.board.requested d).toNat + (m.serves d).toNat

/-- Every request has been served or is still open, and the drivers have run in the order in which the interrupts were. -/
structure Balanced (h : Handlers σ ε) (ticks : UInt64) (system : σ) (m : Wired σ) (log : List Ledger) : Prop where
  inv : LinesInv m
  balance : ∀ d, log.count (.requested d) = log.count (.served d) + m.open d
  effect : (log.filterMap Ledger.handled).foldlM (fun s d => h.handle d s) system = .ok m.system
  ticks_eq : m.timerTicks = ticks + UInt64.ofNat (log.count (.served .timer))

theorem filter_serves {m : Wired σ} {cpu : Cpu} {d : Device} (entered : m.entered = some (cpu, vectorOf d)) :
    devicesByPriority.filter m.serves = [d] := by
  rw [funext (serves_entered entered)]
  cases d <;> rfl

theorem filter_serves_none {m : Wired σ} (entered : m.entered = none) : devicesByPriority.filter m.serves = [] := by
  rw [funext (serves_none entered)]
  rfl

/-- A request is new or it joins one that waits. -/
theorem Balanced.raise {h : Handlers σ ε} {ticks : UInt64} {system : σ} {m : Wired σ} {log : List Ledger}
    (before : Balanced h ticks system m log) (line : Fin 16) :
    Balanced h ticks system { m with board := m.board.raise line } (log ++ ledger m (.raise line) m) := by
  have counts (o : Option Device) (d : Device) : (o.toList.map Ledger.requested).count (.requested d) = if o = some d then 1 else 0 := by
    cases o with
    | none => rfl
    | some e =>
        by_cases same : e = d
        · simp [same]
        · simp [same]
  have served (o : Option Device) : (∀ d, (o.toList.map Ledger.requested).count (.served d) = 0) ∧
      (o.toList.map Ledger.requested).filterMap Ledger.handled = [] := by
    cases o with
    | none => exact ⟨fun _ => rfl, rfl⟩
    | some e => exact ⟨fun d => by simp, rfl⟩
  have steps : lineStep h m (.raise line) = some { m with board := m.board.raise line } := rfl
  have inv := before.inv.step steps
  refine ⟨inv, fun d => ?_, ?_, ?_⟩
  · rw [List.count_append, List.count_append, before.balance d, ledger, counts, (served _).1 d, Wired.open, Wired.open]
    show _ = _ + (((m.board.raise line).requested d).toNat + (m.serves d).toNat)
    rw [raise_requested, newRequest]
    by_cases asks : deviceOf line = some d
    · cases requested : m.board.requested d with
      | true => simp [asks, requested]
      | false =>
          simp [asks, requested]
          omega
    · have other : ((deviceOf line).filter fun d => !m.board.requested d) ≠ some d :=
        fun same => asks (Option.filter_eq_some_iff.mp same).1
      simp [asks, other]
  · rw [List.filterMap_append, ledger, (served _).2, List.append_nil]
    exact before.effect
  · rw [List.count_append, ledger, (served _).1]
    exact before.ticks_eq

/-- The processor moves the request into service. -/
theorem Balanced.accept {h : Handlers σ ε} {ticks : UInt64} {system : σ} {m t : Wired σ} {log : List Ledger} {cpu : Cpu}
    (before : Balanced h ticks system m log) (steps : lineStep h m (.accept cpu) = some t) : Balanced h ticks system t log := by
  have inv := before.inv.step steps
  by_cases on : m.interruptsOn = true
  · obtain ⟨entered, high, low, board⟩ := before.inv.idle_of_on on
    rw [accept_idle h board on cpu] at steps
    cases found : devicesByPriority.find? m.board.requested with
    | none =>
        rw [found] at steps
        cases steps
        exact before
    | some d =>
        rw [found] at steps
        cases steps
        have requested := List.find?_some found
        refine ⟨inv, fun e => ?_, before.effect, before.ticks_eq⟩
        rw [before.balance e, Wired.open, Wired.open, serves_none entered, serves_entered rfl e]
        show _ = _ + (((servingBoard (leftHigh high d) (leftLow low d) d).requested e).toNat + _)
        rw [servingBoard_requested, left_requested, ← board]
        by_cases same : d = e
        · subst same
          simp [requested]
        · simp [same]
  · rw [lineStep, if_neg on] at steps
    cases steps
    exact before

theorem Balanced.dispatch {h : Handlers σ ε} {ticks : UInt64} {system : σ} {m t : Wired σ} {log : List Ledger}
    (before : Balanced h ticks system m log) (steps : lineStep h m .dispatch = some t) :
    Balanced h ticks system t (log ++ ledger m .dispatch t) := by
  cases before.inv with
  | idle board entered =>
      rw [lineStep, entered] at steps
      cases steps
      rw [ledger, filter_serves_none entered, List.map_nil, List.append_nil]
      exact before
  | serving d board entered off =>
      have handled := dispatch_handled h board entered steps
      rw [ledger, filter_serves entered, List.map_singleton]
      refine ⟨handled.inv, fun e => ?_, ?_, ?_⟩
      · rw [List.count_append, List.count_append, before.balance e, Wired.open, Wired.open, handled.requested e,
          serves_none handled.entered, serves_entered entered]
        by_cases same : d = e
        · subst same
          simp
          omega
        · simp [same]
      · rw [List.filterMap_append, List.foldlM_append, before.effect]
        simp [Ledger.handled, handled.system, bind, Except.bind, pure, Except.pure]
      · rw [handled.ticks, before.ticks_eq, List.count_append, countTick]
        by_cases timer : d = .timer
        · simp [timer, UInt64.add_assoc]
        · simp [timer]

theorem Balanced.step {h : Handlers σ ε} {ticks : UInt64} {system : σ} {m t : Wired σ} {log : List Ledger} {event : LineEvent}
    (before : Balanced h ticks system m log) (steps : lineStep h m event = some t) :
    Balanced h ticks system t (log ++ ledger m event t) := by
  cases event with
  | raise line =>
      cases steps
      exact before.raise line
  | accept cpu =>
      rw [ledger, List.append_nil]
      exact before.accept steps
  | dispatch => exact before.dispatch steps
  | flag on =>
      have inv := before.inv.step steps
      rw [ledger, List.append_nil]
      cases steps
      split_ifs
      · exact before
      · exact ⟨by simpa [*] using inv, before.balance, before.effect, before.ticks_eq⟩

theorem balanced_initialised (h : Handlers σ ε) (b : Board) (ticks : UInt64) (system : σ) :
    Balanced h ticks system (initialised b ticks system) [] where
  inv := .idle (interruptInitPorts_eq b) rfl
  balance d := by
    rw [Wired.open, serves_none rfl, initialised, interruptInitPorts_eq]
    cases d <;> rfl
  effect := rfl
  ticks_eq := (UInt64.add_zero ticks).symm

/-! ## Waiting requests -/

/-- Only a driver stops the machine. -/
theorem LinesInv.halts {h : Handlers σ ε} {m : Wired σ} {event : LineEvent} (inv : LinesInv m)
    (halted : lineStep h m event = none) :
    event = .dispatch ∧ ∃ d reason, m.serves d = true ∧ h.handle d m.system = .error reason := by
  cases event with
  | raise line => cases halted
  | accept cpu =>
      by_cases on : m.interruptsOn = true
      · obtain ⟨-, high, low, board⟩ := inv.idle_of_on on
        rw [accept_idle h board on cpu] at halted
        cases halted
      · rw [lineStep, if_neg on] at halted
        cases halted
  | dispatch =>
      cases inv with
      | idle board entered =>
          rw [lineStep, entered] at halted
          cases halted
      | serving d board entered off =>
          rw [dispatch_serving h board entered] at halted
          cases result : h.handle d m.system with
          | ok next =>
              rw [result] at halted
              cases halted
          | error reason => exact ⟨rfl, d, reason, (serves_entered entered d).trans (decide_eq_true rfl), result⟩
  | flag on => cases halted

def Wired.waiting (m : Wired σ) : List Device := devicesByPriority.filter m.board.requested

/-- The acknowledged device was the first that waited. -/
theorem waiting_tail {asks : Device → Bool} {d : Device} (found : devicesByPriority.find? asks = some d) :
    devicesByPriority.filter (fun e => asks e && decide (d ≠ e)) = (devicesByPriority.filter asks).tail := by
  have distinct : devicesByPriority.Nodup := by decide
  obtain ⟨rest, waits⟩ := List.head?_eq_some_iff.mp (List.head?_filter.trans found)
  have later : ∀ e ∈ rest, d ≠ e := by
    have nodup := distinct.filter asks
    rw [waits, List.nodup_cons] at nodup
    exact fun e member same => nodup.1 (same ▸ member)
  calc devicesByPriority.filter (fun e => asks e && decide (d ≠ e))
      = (devicesByPriority.filter asks).filter fun e => decide (d ≠ e) := by
        rw [List.filter_filter]
        exact List.filter_congr fun e _ => Bool.and_comm _ _
    _ = rest := by
        rw [waits, List.filter_cons_of_neg (by simp)]
        exact List.filter_eq_self.mpr fun e member => decide_eq_true (later e member)
    _ = (devicesByPriority.filter asks).tail := by rw [waits, List.tail_cons]

/-- One interrupt taken and served, when the drivers return. -/
theorem round_waiting {h : Handlers σ ε} (returns : ∀ d s, ∃ t, h.handle d s = .ok t) {m : Wired σ} (inv : LinesInv m)
    (on : m.interruptsOn = true) (cpu : Cpu) :
    ∃ t, run (lineStep h) m [.accept cpu, .dispatch] = some t ∧ LinesInv t ∧ t.interruptsOn = true ∧ t.waiting = m.waiting.tail := by
  obtain ⟨entered, high, low, board⟩ := inv.idle_of_on on
  rw [run_cons, accept_idle h board on cpu, Option.bind_some, run_cons]
  cases found : devicesByPriority.find? m.board.requested with
  | none =>
      refine ⟨m, ?_, inv, on, ?_⟩
      · simp [lineStep, entered]
      · have empty : m.waiting = [] := List.filter_eq_nil_iff.mpr fun d member => List.find?_eq_none.mp found d member
        rw [empty, List.tail_nil]
  | some d =>
      obtain ⟨next, result⟩ := returns d m.system
      refine ⟨_, by rw [dispatch_serving h rfl rfl, result]; rfl, .idle rfl rfl, rfl, ?_⟩
      rw [Wired.waiting, Wired.waiting, ← waiting_tail found]
      congr 1
      funext e
      rw [board, left_requested]

/-- Rounds without a new request serve one device each, until none waits. -/
theorem rounds_waiting {h : Handlers σ ε} (returns : ∀ d s, ∃ t, h.handle d s = .ok t) (cpu : Cpu) (rounds : Nat) {m : Wired σ}
    (inv : LinesInv m) (on : m.interruptsOn = true) :
    ∃ t, run (lineStep h) m (List.replicate rounds [.accept cpu, .dispatch]).flatten = some t ∧
      t.interruptsOn = true ∧ t.entered = none ∧ t.waiting = m.waiting.drop rounds := by
  induction rounds generalizing m with
  | zero => exact ⟨m, rfl, on, (inv.idle_of_on on).1, rfl⟩
  | succ rounds ih =>
      obtain ⟨u, first, after, still, left⟩ := round_waiting returns inv on cpu
      obtain ⟨t, rest, on', entered, done⟩ := ih after still
      refine ⟨t, ?_, on', entered, ?_⟩
      · rw [List.replicate_succ, List.flatten_cons, run_append, first]
        exact rest
      · rw [done, left, List.drop_tail]

/-- Behind the interrupt that is being served four rounds serve everything that has been requested. -/
theorem waiting_served {h : Handlers σ ε} (returns : ∀ d s, ∃ t, h.handle d s = .ok t) {m : Wired σ} (inv : LinesInv m)
    (open' : m.interruptsOn = true ∨ m.entered.isSome) (cpu : Cpu) :
    ∃ t, run (lineStep h) m (.dispatch :: (List.replicate 4 [.accept cpu, .dispatch]).flatten) = some t ∧ ∀ d, t.open d = 0 := by
  have ends : ∃ u, lineStep h m .dispatch = some u ∧ LinesInv u ∧ u.interruptsOn = true := by
    cases inv with
    | idle board entered =>
        refine ⟨m, ?_, .idle board entered, ?_⟩
        · rw [lineStep, entered]
        · rw [entered] at open'
          exact open'.resolve_right (by simp)
    | serving d board entered off =>
        obtain ⟨next, result⟩ := returns d m.system
        exact ⟨_, by rw [dispatch_serving h board entered, result], .idle rfl rfl, rfl⟩
  obtain ⟨u, first, after, on⟩ := ends
  obtain ⟨t, rest, -, entered, done⟩ := rounds_waiting returns cpu 4 after on
  refine ⟨t, ?_, fun d => ?_⟩
  · rw [run_cons, first]
    exact rest
  · have empty : t.waiting = [] := by
      rw [done, List.drop_eq_nil_iff]
      exact List.length_filter_le _ devicesByPriority
    have asks : t.board.requested d = false := by
      have none' := List.filter_eq_nil_iff.mp empty d (by cases d <;> decide)
      simpa using none'
    rw [Wired.open, asks, serves_none entered]
    rfl

/-! ## Runs -/

/-- From `interrupt_init` on, in whatever order lines are raised, interrupts are taken and served and the flag changes:
every new request of the four devices in use is served once or still open, the drivers have run in the order of their
interrupts, the processor takes the waiting interrupt of the highest priority, only a driver stops the machine, and drivers
that return leave nothing open once the requests pause. -/
theorem interrupts_served (h : Handlers σ ε) (b : Board) (ticks : UInt64) (system : σ) (events : List LineEvent) {m : Wired σ}
    (reaches : run (lineStep h) (initialised b ticks system) events = some m) :
    let log := transcript (lineStep h) ledger (initialised b ticks system) events
    (∀ d, log.count (.requested d) = log.count (.served d) + m.open d) ∧
    (log.filterMap Ledger.handled).foldlM (fun s d => h.handle d s) system = .ok m.system ∧
    m.timerTicks = ticks + UInt64.ofNat (log.count (.served .timer)) ∧
    (∀ cpu, m.interruptsOn = true → ∃ t, lineStep h m (.accept cpu) = some t ∧
      t.entered = (devicesByPriority.find? m.board.requested).map fun d => (cpu, vectorOf d)) ∧
    (∀ event, lineStep h m event = none →
      event = .dispatch ∧ ∃ d reason, m.serves d = true ∧ h.handle d m.system = .error reason) ∧
    ((∀ d s, ∃ t, h.handle d s = .ok t) → m.interruptsOn = true ∨ m.entered.isSome → ∀ cpu,
      ∃ t, run (lineStep h) m (.dispatch :: (List.replicate 4 [.accept cpu, .dispatch]).flatten) = some t ∧ ∀ d, t.open d = 0) := by
  intro log
  have keeps : ∀ (m : Wired σ) (log : List Ledger) (event : LineEvent) (t : Wired σ), Balanced h ticks system m log → True →
      lineStep h m event = some t → Balanced h ticks system t (log ++ ledger m event t) :=
    fun _ _ _ _ before _ steps => before.step steps
  have balanced : Balanced h ticks system m log :=
    (along_true _ events).transcript_invariant keeps (balanced_initialised h b ticks system) reaches
  refine ⟨balanced.balance, balanced.effect, balanced.ticks_eq, fun cpu on => ?_, fun event halted => balanced.inv.halts halted,
    fun returns open' cpu => waiting_served returns balanced.inv open' cpu⟩
  obtain ⟨entered, high, low, board⟩ := balanced.inv.idle_of_on on
  refine ⟨_, accept_idle h board on cpu, ?_⟩
  cases devicesByPriority.find? m.board.requested with
  | none => exact entered
  | some d => rfl

end

/-- The clock of `scheduler.c`, beside drivers that leave it alone. -/
def clockHandlers (total free : UInt64) : Handlers Sched Stopped where
  handle
    | .timer, s => schedulerTick s total free
    | _, s => .ok s

/-- Two requests of the timer while the mouse is served are one interrupt, and line 5 is masked. -/
def clockEvents : List LineEvent :=
  [.raise 12, .flag true, .accept sevens, .raise 0, .raise 5, .raise 0, .dispatch, .accept sevens, .dispatch, .accept sevens]

theorem interrupts_served_clock : ∃ m,
    run (lineStep (clockHandlers 1000 900)) (initialised (idleBoard (fun _ => true) fun _ => true) 7 { tasks := bootTasks })
      clockEvents = some m ∧ m.timerTicks = 8 ∧ m.entered = none := by
  refine ⟨_, rfl, ?_, rfl⟩
  have served := interrupts_served (clockHandlers 1000 900) (idleBoard (fun _ => true) fun _ => true) 7 { tasks := bootTasks }
    clockEvents rfl
  exact served.2.2.1

end Mgcore
